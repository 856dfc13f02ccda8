/-
# `Proofs.Program.Entity` — what is read from a record

For each kind of entity, what holds of one that a record was read into: it is
known by the record's offset, what it is made of comes from records inside that
one, and the types it refers to resolve.  Arrays are the exception.  Their
element type lies inside the subscript data, where nobody looks it up, so all
that is known of it is that the data gives it (`Entry.GivesElement`).

The statements follow the readers.  `addAttribute` keeps what is said of an
entity, whichever attribute comes; the records inside are gathered.
-/
import DwarfOne.Program.Basic
import DwarfOne.Proofs.Program.Build

namespace DwarfOne

open Build

/-! ## Records inside records -/

/-- A record is inside another, at any depth.  Padding is not counted in. -/
inductive Entry.Contains : Entry → Entry → Prop
  | child {e c : Entry} : c ∈ e.children → Contains e c
  | deeper {e b c : Entry} : b ∈ e.children → Contains b c → Contains e c

namespace Entry

theorem mem_children_iff {e c : Entry} :
    c ∈ e.children ↔
      c.debug = e.debug ∧ c.place ∈ e.debug.children e.place ∧ c.record.isPadding = false := by
  rw [children, List.mem_filter, List.mem_map]
  constructor
  · rintro ⟨⟨i, hi, rfl⟩, hpadding⟩
    exact ⟨rfl, hi, by simpa using hpadding⟩
  · rintro ⟨hdebug, hplace, hpadding⟩
    exact ⟨⟨c.place, hplace, by rw [← hdebug]⟩, by simpa using hpadding⟩

theorem debug_of_mem_children {e c : Entry} (h : c ∈ e.children) : c.debug = e.debug :=
  (mem_children_iff.mp h).1

/-- An offset and a type that come from a record: the record's own offset and a
type that resolves. -/
structure Declares (e : Entry) (offset : UInt32) (type : TypeRef) : Prop where
  offset_eq : offset = e.offset
  resolves : type.Resolves e.debug

/-- A type attribute may replace the type. -/
theorem Declares.yields_type? {e : Entry} {offset : UInt32} {type : TypeRef}
    (h : e.Declares offset type) (a : Attribute) {start : TypeRef}
    (hstart : start.Resolves e.debug) :
    Yields (e.type? a) fun found => e.Declares offset (found.getD start) :=
  (e.yields_type?_getD a hstart).mono fun _ hfound => ⟨h.offset_eq, hfound⟩

/-- An offset and a type that come from a record inside this one. -/
def DeclaresInside (e : Entry) (offset : UInt32) (type : TypeRef) : Prop :=
  ∃ child, e.Contains child ∧ child.Declares offset type

theorem Declares.inside {e c : Entry} {offset : UInt32} {type : TypeRef}
    (h : c.Declares offset type) (hc : c ∈ e.children) : e.DeclaresInside offset type :=
  ⟨c, .child hc, h⟩

theorem DeclaresInside.outer {e c : Entry} {offset : UInt32} {type : TypeRef}
    (h : c.DeclaresInside offset type) (hc : c ∈ e.children) : e.DeclaresInside offset type :=
  let ⟨child, hchild, hdeclares⟩ := h
  ⟨child, .deeper hc hchild, hdeclares⟩

theorem DeclaresInside.resolves {e : Entry} {offset : UInt32} {type : TypeRef}
    (h : e.DeclaresInside offset type) : type.Resolves e.debug := by
  obtain ⟨child, hchild, hdeclares⟩ := h
  have hdebug : child.debug = e.debug := by
    clear hdeclares
    induction hchild with
    | child hc => exact debug_of_mem_children hc
    | deeper hb _ ih => exact ih.trans (debug_of_mem_children hb)
  exact hdebug ▸ hdeclares.resolves

/-- The subscript data of a record gives an element type. -/
def GivesElement (e : Entry) (ty : TypeRef) : Prop :=
  ∃ a ∈ e.attributes, a.name = .subscrData ∧ ∃ data,
    a.value.asBlock >>= SubscriptData.decode e.debug.order = .ok data ∧ data.element = some ty

/-- A payload that can be decoded is that of its attribute. -/
theorem yields_block? {α : Type} (e : Entry) (a : Attribute)
    (decode : ByteOrder → List UInt8 → Except PayloadError α) :
    Yields (e.block? a decode) fun found =>
      ∀ value ∈ found, a.value.asBlock >>= decode e.debug.order = .ok value := by
  unfold block?
  cases a.value.asBlock >>= decode e.debug.order with
  | error cause => simp [decoded]
  | ok value => simp [decoded]

end Entry

/-! ## Members, bases and typedefs -/

theorem Member.yields_addAttribute {e : Entry} {m : Member} (h : e.Declares m.offset m.type)
    (a : Attribute) : Yields (addAttribute e m a) fun m => e.Declares m.offset m.type := by
  have htype := h.yields_type? a (TypeRef.resolves_integer e.debug)
  unfold addAttribute
  cases a.name with
  | fundType | userDefType | modFundType | modUserDefType => simp [htype]
  | location =>
      refine yields_bind (.of_forall fun location => ?_)
      split
      · simp [h]
      · simp [h]
  | _ => simp [h]

theorem Member.yields_ofEntry (kind : ClassKind) (e : Entry) :
    Yields (ofEntry kind e) fun m => e.Declares m.offset m.type :=
  yields_refine ⟨rfl, TypeRef.resolves_integer e.debug⟩ fun _ h a _ => yields_addAttribute h a

theorem Base.yields_addAttribute {e : Entry} {b : Base} (h : b.type.Resolves e.debug)
    (a : Attribute) : Yields (addAttribute e b a) fun b => b.type.Resolves e.debug := by
  have htype := e.yields_type?_getD a (TypeRef.resolves_integer e.debug)
  unfold addAttribute
  cases a.name with
  | fundType | userDefType | modFundType | modUserDefType => simp [htype]
  | _ => simp [h]

theorem Base.yields_ofEntry (kind : ClassKind) (e : Entry) :
    Yields (ofEntry kind e) fun b => b.type.Resolves e.debug :=
  yields_refine (TypeRef.resolves_integer e.debug) fun _ h a _ => yields_addAttribute h a

theorem Typedef.yields_addAttribute {e : Entry} {t : Typedef} (h : e.Declares t.offset t.type)
    (a : Attribute) : Yields (addAttribute e t a) fun t => e.Declares t.offset t.type := by
  have htype := h.yields_type? a (TypeRef.resolves_integer e.debug)
  unfold addAttribute
  cases a.name with
  | fundType | userDefType | modFundType | modUserDefType => simp [htype]
  | _ => simp [h]

theorem Typedef.yields_ofEntry (e : Entry) :
    Yields (ofEntry e) fun t => e.Declares t.offset t.type :=
  yields_refine ⟨rfl, TypeRef.resolves_integer e.debug⟩ fun _ h a _ => yields_addAttribute h a

/-! ## Classes -/

/-- What a record inside that of a class is read into. -/
def ClassPart.ReadInside (parent : Entry) : ClassPart → Prop
  | member m => parent.DeclaresInside m.offset m.type
  | base b => b.type.Resolves parent.debug
  | typedef t => parent.DeclaresInside t.offset t.type

theorem ClassPart.yields_ofEntry (kind : ClassKind) {parent e : Entry} (he : e ∈ parent.children) :
    Yields (ofEntry kind parent e) fun found => ∀ part ∈ found, part.ReadInside parent := by
  have hmember := (Member.yields_ofEntry kind e).mono fun _ h => h.inside he
  have hbase := Base.yields_ofEntry kind e
  have htypedef := (Typedef.yields_ofEntry e).mono fun _ h => h.inside he
  rw [Entry.debug_of_mem_children he] at hbase
  unfold ofEntry
  split
  all_goals simp [ReadInside, hmember, hbase, htypedef]

theorem ClassPart.member?_eq_some_iff {part : ClassPart} {m : Member} :
    part.member? = some m ↔ part = member m := by
  cases part <;> simp [member?]

theorem ClassPart.base?_eq_some_iff {part : ClassPart} {b : Base} :
    part.base? = some b ↔ part = base b := by
  cases part <;> simp [base?]

theorem ClassPart.typedef?_eq_some_iff {part : ClassPart} {t : Typedef} :
    part.typedef? = some t ↔ part = typedef t := by
  cases part <;> simp [typedef?]

def ClassKind.tag : ClassKind → Tag
  | classKind => .classType
  | structKind => .structureType
  | unionKind => .unionType

/-- What the record of a class is read into.  It has no functions yet. -/
structure ClassType.ReadFrom (e : Entry) (c : ClassType) : Prop where
  offset_eq : c.offset = e.offset
  tag_eq : e.tag = c.kind.tag
  functions_eq : c.functions = []
  members : ∀ m ∈ c.members, e.DeclaresInside m.offset m.type
  bases : ∀ b ∈ c.bases, b.type.Resolves e.debug
  typedefs : ∀ t ∈ c.typedefs, e.DeclaresInside t.offset t.type

theorem ClassType.yields_addAttribute {e : Entry} {c : ClassType} (h : c.ReadFrom e)
    (a : Attribute) : Yields (addAttribute e c a) (ReadFrom e) := by
  obtain ⟨hoffset, htag, hfunctions, hmembers, hbases, htypedefs⟩ := h
  have hc (name : String) (byteSize : UInt32) : ReadFrom e { c with name, byteSize } :=
    ⟨hoffset, htag, hfunctions, hmembers, hbases, htypedefs⟩
  unfold addAttribute
  cases a.name with
  | _ => simp [hc]

theorem ClassType.yields_ofEntry {kind : ClassKind} {e : Entry} (htag : e.tag = kind.tag) :
    Yields (ofEntry kind e) (ReadFrom e) := by
  have hstart : ReadFrom e
      { offset := e.offset, kind, name := "", byteSize := 0, members := [], bases := []
        typedefs := [], functions := [] } :=
    ⟨rfl, htag, rfl, by simp, by simp, by simp⟩
  refine yields_bind ((yields_refine hstart fun _ h a _ => yields_addAttribute h a).mono
    fun c hc => ?_)
  refine yields_bind ((yields_gather_forall fun _ he => ClassPart.yields_ofEntry kind he).mono
    fun parts hparts => yields_pure_iff.mpr ?_)
  refine ⟨hc.offset_eq, hc.tag_eq, hc.functions_eq, fun m hm => ?_, fun b hb => ?_, fun t ht => ?_⟩
  · obtain ⟨_, hpart, heq⟩ := List.mem_filterMap.mp hm
    obtain rfl := ClassPart.member?_eq_some_iff.mp heq
    exact hparts _ hpart
  · obtain ⟨_, hpart, heq⟩ := List.mem_filterMap.mp hb
    obtain rfl := ClassPart.base?_eq_some_iff.mp heq
    exact hparts _ hpart
  · obtain ⟨_, hpart, heq⟩ := List.mem_filterMap.mp ht
    obtain rfl := ClassPart.typedef?_eq_some_iff.mp heq
    exact hparts _ hpart

/-! ## Enumerations, arrays and pointers to members -/

theorem EnumType.yields_addAttribute {e : Entry} {t : EnumType} (h : t.offset = e.offset)
    (a : Attribute) : Yields (addAttribute e t a) fun t => t.offset = e.offset := by
  unfold addAttribute
  cases a.name with
  | _ => simp [h]

theorem EnumType.yields_ofEntry (e : Entry) :
    Yields (ofEntry e) fun t => t.offset = e.offset :=
  yields_refine rfl fun _ h a _ => yields_addAttribute h a

/-- What the record of an array is read into.  Nobody looks for the record of an
element type. -/
structure ArrayType.ReadFrom (e : Entry) (t : ArrayType) : Prop where
  offset_eq : t.offset = e.offset
  element : t.element = .integer ∨ e.GivesElement t.element

theorem ArrayType.yields_addAttribute {e : Entry} {t : ArrayType} (h : t.ReadFrom e)
    {a : Attribute} (ha : a ∈ e.attributes) : Yields (addAttribute e t a) (ReadFrom e) := by
  obtain ⟨hoffset, helement⟩ := h
  have hname (name : String) : ReadFrom e { t with name } := ⟨hoffset, helement⟩
  unfold addAttribute
  cases hattribute : a.name with
  | subscrData =>
      refine yields_bind ((e.yields_block? a SubscriptData.decode).mono fun found hfound => ?_)
      cases found with
      | none => exact yields_pure_iff.mpr (hname t.name)
      | some data =>
          refine yields_pure_iff.mpr ⟨hoffset, ?_⟩
          -- data without an element type leaves the one there was
          cases hdata : data.element with
          | none => exact helement
          | some ty => exact .inr ⟨a, ha, hattribute, data, hfound data rfl, hdata⟩
  | _ => simp [hname]

theorem ArrayType.yields_ofEntry (e : Entry) : Yields (ofEntry e) (ReadFrom e) :=
  yields_refine ⟨rfl, .inl rfl⟩ fun _ h _ ha => yields_addAttribute h ha

theorem MemberPointerType.yields_addAttribute {e : Entry} {t : MemberPointerType}
    (h : e.Declares t.offset t.type) (a : Attribute) :
    Yields (addAttribute e t a) fun t => e.Declares t.offset t.type := by
  have htype := h.yields_type? a (TypeRef.resolves_integer e.debug)
  unfold addAttribute
  cases a.name with
  | fundType | userDefType | modFundType | modUserDefType => simp [htype]
  | _ => simp [h]

theorem MemberPointerType.yields_ofEntry (e : Entry) :
    Yields (ofEntry e) fun t => e.Declares t.offset t.type :=
  yields_refine ⟨rfl, TypeRef.resolves_integer e.debug⟩ fun _ h a _ => yields_addAttribute h a

/-! ## Routine types -/

theorem Local.yields_addAttribute {e : Entry} {l : Local} (h : e.Declares l.offset l.type)
    (a : Attribute) : Yields (addAttribute e l a) fun l => e.Declares l.offset l.type := by
  have htype := h.yields_type? a (TypeRef.resolves_integer e.debug)
  unfold addAttribute
  cases a.name with
  | fundType | userDefType | modFundType | modUserDefType => simp [htype]
  | _ => simp [h]

theorem Local.yields_ofEntry (e : Entry) :
    Yields (ofEntry e) fun l => e.Declares l.offset l.type :=
  yields_refine ⟨rfl, TypeRef.resolves_integer e.debug⟩ fun _ h a _ => yields_addAttribute h a

/-- What a record inside that of a routine is read into. -/
def SignaturePart.ReadInside (parent : Entry) (part : SignaturePart) : Prop :=
  ∀ l, part.parameter? = some l → parent.DeclaresInside l.offset l.type

theorem SignaturePart.yields_ofEntry {parent e : Entry} (he : e ∈ parent.children) :
    Yields (ofEntry parent e) fun found => ∀ part ∈ found, part.ReadInside parent := by
  have hparameter := (Local.yields_ofEntry e).mono fun _ h => h.inside he
  unfold ofEntry
  split
  all_goals simp [ReadInside, parameter?, hparameter]

theorem SignaturePart.declaresInside_of_mem {parent : Entry} {parts : List SignaturePart}
    (hparts : ∀ part ∈ parts, part.ReadInside parent) :
    ∀ l ∈ parts.filterMap parameter?, parent.DeclaresInside l.offset l.type := by
  intro l hl
  obtain ⟨part, hpart, heq⟩ := List.mem_filterMap.mp hl
  exact hparts part hpart l heq

/-- What the record of a routine type is read into. -/
structure RoutineType.ReadFrom (e : Entry) (t : RoutineType) : Prop where
  declares : e.Declares t.offset t.returnType
  parameters : ∀ l ∈ t.parameters, e.DeclaresInside l.offset l.type

theorem RoutineType.readFrom_start (e : Entry) : (start e).ReadFrom e :=
  ⟨⟨rfl, TypeRef.resolves_void e.debug⟩, fun _ hl => absurd hl List.not_mem_nil⟩

theorem RoutineType.ReadFrom.yields_type? {e : Entry} {t : RoutineType} (h : t.ReadFrom e)
    (a : Attribute) :
    Yields (e.type? a) fun found => ReadFrom e { t with returnType := found.getD .void } :=
  (h.declares.yields_type? a (TypeRef.resolves_void e.debug)).mono
    fun _ hfound => ⟨hfound, h.parameters⟩

theorem RoutineType.ReadFrom.rename {e : Entry} {t : RoutineType} (h : t.ReadFrom e)
    (name : String) : ReadFrom e { t with name } :=
  ⟨h.declares, h.parameters⟩

theorem RoutineType.yields_addAttribute {e : Entry} {t : RoutineType} (h : t.ReadFrom e)
    (a : Attribute) : Yields (addAttribute e t a) (ReadFrom e) := by
  have htype := h.yields_type? a
  have hname := h.rename
  unfold addAttribute
  cases a.name with
  | fundType | userDefType | modFundType | modUserDefType => simp [htype]
  | name => simp [hname]
  | _ => simp [h]

theorem RoutineType.yields_ofEntry (e : Entry) : Yields (ofEntry e) (ReadFrom e) := by
  refine yields_bind ((yields_refine (readFrom_start e) fun _ h a _ => yields_addAttribute h a).mono
    fun t ht => ?_)
  refine yields_bind ((yields_gather_forall fun _ he => SignaturePart.yields_ofEntry he).mono
    fun parts hparts => yields_pure_iff.mpr ?_)
  exact ⟨ht.declares, SignaturePart.declaresInside_of_mem hparts⟩

/-! ## Functions -/

/-- Blocks may be nested, so the record a variable comes from can be deep inside
that of the outermost block. -/
theorem yields_blockLocals : ∀ (fuel : Nat) (block : Entry),
    Yields (blockLocals fuel block) fun found =>
      ∀ l ∈ found, block.DeclaresInside l.offset l.type
  | 0, _ => yields_pure_iff.mpr fun _ hl => absurd hl List.not_mem_nil
  | fuel + 1, block => by
      refine yields_bind (.of_forall fun _ => ?_)
      refine yields_bind ((yields_gather_forall (P := fun found : List Local =>
        ∀ l ∈ found, block.DeclaresInside l.offset l.type) fun e he => ?_).mono
        fun found hfound => yields_pure_iff.mpr fun l hl => ?_)
      · have hvariable := (Local.yields_ofEntry e).mono fun _ h => h.inside he
        have hblock := (yields_blockLocals fuel e).mono fun _ h l hl => (h l hl).outer he
        split
        all_goals simp [hvariable, hblock]
      · obtain ⟨_, hmem, hl⟩ := List.mem_flatten.mp hl
        exact hfound _ hmem l hl

/-- What a record inside that of a function is read into. -/
def FunctionPart.ReadInside (parent : Entry) : FunctionPart → Prop
  | signature part => part.ReadInside parent
  | locals found => ∀ l ∈ found, parent.DeclaresInside l.offset l.type

theorem FunctionPart.yields_ofEntry {parent e : Entry} (he : e ∈ parent.children) :
    Yields (ofEntry parent e) fun found => ∀ part ∈ found, part.ReadInside parent := by
  have hvariable := (Local.yields_ofEntry e).mono fun _ h => h.inside he
  have hblock := (yields_blockLocals e.debug.records.size e).mono fun _ h l hl => (h l hl).outer he
  have hsignature := SignaturePart.yields_ofEntry he
  unfold ofEntry
  split
  · simp [ReadInside, hvariable]
  · simp [ReadInside, hblock]
  · refine yields_bind (hsignature.mono fun found hfound => ?_)
    refine yields_pure_iff.mpr fun part hpart => ?_
    obtain ⟨_, hmem, rfl⟩ := Option.map_eq_some_iff.mp hpart
    exact hfound _ hmem

theorem FunctionPart.signature?_eq_some_iff {part : FunctionPart} {found : SignaturePart} :
    part.signature? = some found ↔ part = signature found := by
  cases part <;> simp [signature?]

/-- What the record of a function is read into.  It has no lines yet. -/
structure Function.ReadFrom (e : Entry) (f : Function) : Prop where
  signature : f.signature.ReadFrom e
  locals : ∀ l ∈ f.locals, e.DeclaresInside l.offset l.type
  lines_eq : f.lines = []

theorem Function.yields_addAttribute {e : Entry} {f : Function} (h : f.signature.ReadFrom e)
    (hlines : f.lines = []) (a : Attribute) :
    Yields (addAttribute e f a) fun f => f.signature.ReadFrom e ∧ f.lines = [] := by
  have htype := h.yields_type? a
  have hname := h.rename
  unfold addAttribute
  cases a.name with
  | fundType | userDefType | modFundType | modUserDefType => simp [htype, hlines]
  | name => simp [hname, hlines]
  | _ => simp [h, hlines]

theorem Function.yields_ofEntry (e : Entry) : Yields (ofEntry e) (ReadFrom e) := by
  refine yields_bind ((yields_refine (P := fun f => f.signature.ReadFrom e ∧ f.lines = [])
    ⟨RoutineType.readFrom_start e, rfl⟩ fun _ h a _ => yields_addAttribute h.1 h.2 a).mono
    fun f hf => ?_)
  refine yields_bind ((yields_gather_forall fun _ he => FunctionPart.yields_ofEntry he).mono
    fun parts hparts => yields_pure_iff.mpr ?_)
  refine ⟨⟨hf.1.declares, SignaturePart.declaresInside_of_mem fun part hpart => ?_⟩,
    fun l hl => ?_, hf.2⟩
  · obtain ⟨_, hmem, heq⟩ := List.mem_filterMap.mp hpart
    obtain rfl := FunctionPart.signature?_eq_some_iff.mp heq
    exact hparts _ hmem
  · obtain ⟨part, hmem, hl⟩ := List.mem_flatMap.mp hl
    cases part with
    | signature _ => exact absurd hl List.not_mem_nil
    | locals found => exact hparts _ hmem l hl

def Function.tags : List Tag := [.subroutine, .globalSubroutine, .inlinedSubroutine]

/-! ## Variables -/

theorem Variable.yields_addAttribute {e : Entry} {v : Variable} (h : e.Declares v.offset v.type)
    (a : Attribute) : Yields (addAttribute e v a) fun v => e.Declares v.offset v.type := by
  have htype := h.yields_type? a (TypeRef.resolves_integer e.debug)
  unfold addAttribute
  cases a.name with
  | fundType | userDefType | modFundType | modUserDefType => simp [htype]
  | location =>
      refine yields_bind (.of_forall fun location => ?_)
      split
      · simp [h]
      · simp [h]
  | _ => simp [h]

theorem Variable.yields_ofEntry (e : Entry) :
    Yields (ofEntry e) fun v => e.Declares v.offset v.type :=
  yields_refine ⟨rfl, TypeRef.resolves_integer e.debug⟩ fun _ h a _ => yields_addAttribute h a

def Variable.tags : List Tag := [.globalVariable, .localVariable]

/-! ## Units -/

/-- The tag of the records that types of a kind are read from. -/
def UserType.tag : UserType → Tag
  | ofClass c => c.kind.tag
  | ofEnum _ => .enumerationType
  | ofArray _ => .arrayType
  | ofRoutine _ => .subroutineType
  | ofMemberPointer _ => .pointerToMemberType

/-- What the record of a type is read into. -/
def UserType.ReadFrom (e : Entry) : UserType → Prop
  | ofClass c => c.ReadFrom e
  | ofEnum t => t.offset = e.offset
  | ofArray t => t.ReadFrom e
  | ofRoutine t => t.ReadFrom e
  | ofMemberPointer t => e.Declares t.offset t.type

theorem UserType.ReadFrom.offset_eq {e : Entry} : ∀ {t : UserType}, t.ReadFrom e →
    t.offset = e.offset
  | ofClass _, h => ClassType.ReadFrom.offset_eq h
  | ofEnum _, h => h
  | ofArray _, h => ArrayType.ReadFrom.offset_eq h
  | ofRoutine _, h => (RoutineType.ReadFrom.declares h).offset_eq
  | ofMemberPointer _, h => Entry.Declares.offset_eq h

/-- What a record in a unit is read into, and how its tag tells. -/
def UnitPart.ReadFrom (e : Entry) : UnitPart → Prop
  | ofType t => e.tag = t.tag ∧ t.ReadFrom e
  | ofFunction f => e.tag ∈ Function.tags ∧ f.ReadFrom e
  | ofVariable v => e.tag ∈ Variable.tags ∧ e.Declares v.offset v.type

theorem UnitPart.yields_ofEntry (parent e : Entry) :
    Yields (ofEntry parent e) fun found => ∀ part ∈ found, part.ReadFrom e := by
  have hclass (kind : ClassKind) (htag : e.tag = kind.tag) :
      Yields (ClassType.ofEntry kind e) fun c => (ofType (.ofClass c)).ReadFrom e :=
    (ClassType.yields_ofEntry htag).mono fun _ hc => ⟨hc.tag_eq, hc⟩
  have hfunction (htag : e.tag ∈ Function.tags) :
      Yields (Function.ofEntry e) fun f => (ofFunction f).ReadFrom e :=
    (Function.yields_ofEntry e).mono fun _ hf => ⟨htag, hf⟩
  have hvariable (htag : e.tag ∈ Variable.tags) :
      Yields (Variable.ofEntry e) fun v => (ofVariable v).ReadFrom e :=
    (Variable.yields_ofEntry e).mono fun _ hv => ⟨htag, hv⟩
  unfold ofEntry
  cases htag : e.tag with
  | classType => exact (hclass .classKind htag).found
  | structureType => exact (hclass .structKind htag).found
  | unionType => exact (hclass .unionKind htag).found
  | enumerationType => exact ((EnumType.yields_ofEntry e).mono fun _ ht => ⟨htag, ht⟩).found
  | arrayType => exact ((ArrayType.yields_ofEntry e).mono fun _ ht => ⟨htag, ht⟩).found
  | subroutineType => exact ((RoutineType.yields_ofEntry e).mono fun _ ht => ⟨htag, ht⟩).found
  | pointerToMemberType =>
      exact ((MemberPointerType.yields_ofEntry e).mono fun _ ht => ⟨htag, ht⟩).found
  | subroutine | globalSubroutine | inlinedSubroutine =>
      exact (hfunction (by simp [Function.tags, htag])).found
  | globalVariable | localVariable =>
      exact (hvariable (by simp [Variable.tags, htag])).found
  | _ => simp

theorem UnitPart.asType?_eq_some_iff {part : UnitPart} {t : UserType} :
    part.asType? = some t ↔ part = ofType t := by
  cases part <;> simp [asType?]

theorem UnitPart.asFunction?_eq_some_iff {part : UnitPart} {f : Function} :
    part.asFunction? = some f ↔ part = ofFunction f := by
  cases part <;> simp [asFunction?]

theorem UnitPart.asVariable?_eq_some_iff {part : UnitPart} {v : Variable} :
    part.asVariable? = some v ↔ part = ofVariable v := by
  cases part <;> simp [asVariable?]

theorem File.yields_addAttribute {e : Entry} {f : File}
    (h : f.offset = e.offset ∧ f.lineTable = none) (a : Attribute) :
    Yields (addAttribute e f a) fun f => f.offset = e.offset ∧ f.lineTable = none := by
  unfold addAttribute
  cases a.name with
  | _ => simp [h]

/-- What the record of a unit is read into.  The file lists what the unit
declares, and each declaration comes from a record in the unit.  It has no line
table yet. -/
structure CompileUnit.ReadFrom (e : Entry) (u : CompileUnit) : Prop where
  offset_eq : u.file.offset = e.offset
  lineTable_eq : u.file.lineTable = none
  types_eq : u.file.types = (u.parts.filterMap UnitPart.asType?).map UserType.offset
  functions_eq : u.file.functions = (u.parts.filterMap UnitPart.asFunction?).map Function.offset
  vars_eq : u.file.vars = (u.parts.filterMap UnitPart.asVariable?).map Variable.offset
  parts : ∀ part ∈ u.parts, ∃ child ∈ e.children, part.ReadFrom child

theorem CompileUnit.yields_ofEntry (e : Entry) : Yields (ofEntry e) (ReadFrom e) := by
  refine yields_bind ((yields_refine (P := fun f => f.offset = e.offset ∧ f.lineTable = none)
    ⟨rfl, rfl⟩ fun _ h a _ => File.yields_addAttribute h a).mono fun file hfile => ?_)
  refine yields_bind ((yields_gather fun child _ => UnitPart.yields_ofEntry e child).mono
    fun parts hparts => yields_pure_iff.mpr ?_)
  exact ⟨hfile.1, hfile.2, rfl, rfl, rfl, hparts⟩

theorem CompileUnit.yields_ofRoot (e : Entry) :
    Yields (ofRoot e) fun found => ∀ u ∈ found, e.tag = .compileUnit ∧ u.ReadFrom e := by
  unfold ofRoot
  split
  case h_1 htag => exact ((yields_ofEntry e).mono fun _ hu => ⟨htag, hu⟩).found
  case h_2 => simp

end DwarfOne
