/-
# `Proofs.Program.Accounts` — what becomes of the records that are met

For each container, what is in the value made of it: the records that have a role
there, each read by itself, in the order they are met.  A block has no value of
its own, so the variables in it are those of the function around it; they come as
the walk meets them.  `Accounts` says this of classes, routines, functions and
units, and `accounted_of_build` of a whole program, together with the warnings
about all other records.
-/
import DwarfOne.Proofs.Program.Store
import DwarfOne.Proofs.Program.Visits

namespace DwarfOne

open Build

/-! ## Records with nothing inside -/

/-- The record itself was read into the member. -/
def Member.OfRecord (kind : ClassKind) (x : Entry) (m : Member) : Prop :=
  m.offset = x.offset ∧ (ofEntry kind x).Reads m

/-- A base keeps no offset. -/
def Base.OfRecord (kind : ClassKind) (x : Entry) (b : Base) : Prop :=
  (ofEntry kind x).Reads b

def Typedef.OfRecord (x : Entry) (t : Typedef) : Prop :=
  t.offset = x.offset ∧ (ofEntry x).Reads t

def Local.OfRecord (x : Entry) (l : Local) : Prop :=
  l.offset = x.offset ∧ (ofEntry x).Reads l

theorem Member.tells_ofEntry (kind : ClassKind) (x : Entry) :
    Tells (ofEntry kind x) fun m ws => m.OfRecord kind x ∧ ws = [] :=
  (blind_ofEntry kind x).tells ((yields_ofEntry kind x).mono fun _ h => h.offset_eq)

theorem Base.tells_ofEntry (kind : ClassKind) (x : Entry) :
    Tells (ofEntry kind x) fun b ws => b.OfRecord kind x ∧ ws = [] :=
  ((blind_ofEntry kind x).tells yields_true).mono fun _ _ h => ⟨h.1.2, h.2⟩

theorem Typedef.tells_ofEntry (x : Entry) :
    Tells (ofEntry x) fun t ws => t.OfRecord x ∧ ws = [] :=
  (blind_ofEntry x).tells ((yields_ofEntry x).mono fun _ h => h.offset_eq)

theorem Local.tells_ofEntry (x : Entry) :
    Tells (ofEntry x) fun l ws => l.OfRecord x ∧ ws = [] :=
  (blind_ofEntry x).tells ((yields_ofEntry x).mono fun _ h => h.offset_eq)

/-! ## Classes -/

/-- A record in a class was read into the part, as its tag says. -/
def ClassPart.OfRecord (kind : ClassKind) (x : Entry) : ClassPart → Prop
  | member m => Container.classBody.role? x.tag = some .member ∧ m.OfRecord kind x
  | base b => Container.classBody.role? x.tag = some .base ∧ b.OfRecord kind x
  | typedef t => Container.classBody.role? x.tag = some .typedef ∧ t.OfRecord x

theorem ClassPart.tells_ofEntry (kind : ClassKind) {e x : Entry} (hx : x ∈ e.children) :
    Tells (ofEntry kind e x)
      (Visit.Met { container := .classBody, parent := some e, entry := x } x.visits
        (OfRecord kind x)) := by
  have hpadding := (Entry.mem_children_iff.mp hx).2.2
  unfold ofEntry
  cases htag : x.tag with
  | member =>
      have hrole : Container.classBody.role? x.tag = some .member := by rw [htag]; rfl
      exact Visit.tells_leaf hrole (by rw [htag]; rfl)
        ((Member.tells_ofEntry kind x).mono fun _ _ h => ⟨⟨hrole, h.1⟩, h.2⟩)
  | inheritance =>
      have hrole : Container.classBody.role? x.tag = some .base := by rw [htag]; rfl
      exact Visit.tells_leaf hrole (by rw [htag]; rfl)
        ((Base.tells_ofEntry kind x).mono fun _ _ h => ⟨⟨hrole, h.1⟩, h.2⟩)
  | typedef =>
      have hrole : Container.classBody.role? x.tag = some .typedef := by rw [htag]; rfl
      exact Visit.tells_leaf hrole (by rw [htag]; rfl)
        ((Typedef.tells_ofEntry x).mono fun _ _ h => ⟨⟨hrole, h.1⟩, h.2⟩)
  | _ => exact Visit.tells_unknown (by rw [htag]; rfl) hpadding rfl

/-- The members, bases and typedefs of a class are the records in it with these
roles. -/
structure ClassType.Accounts (e : Entry) (c : ClassType) : Prop where
  offset_eq : c.offset = e.offset
  members : List.Forall₂ (Member.OfRecord c.kind) (e.playing .classBody .member) c.members
  bases : List.Forall₂ (Base.OfRecord c.kind) (e.playing .classBody .base) c.bases
  typedefs : List.Forall₂ Typedef.OfRecord (e.playing .classBody .typedef) c.typedefs

theorem ClassKind.tag_injective {kind kind' : ClassKind} (h : kind.tag = kind'.tag) :
    kind = kind' := by
  cases kind <;> cases kind' <;> simp_all [tag]

theorem ClassType.accounts_of_parts {e : Entry} {c : ClassType} {parts : List ClassPart}
    (hoffset : c.offset = e.offset)
    (h : List.Forall₂ (ClassPart.OfRecord c.kind)
      (e.children.filter fun x => (Container.classBody.role? x.tag).isSome) parts) :
    Accounts e { c with
      members := parts.filterMap ClassPart.member?
      bases := parts.filterMap ClassPart.base?
      typedefs := parts.filterMap ClassPart.typedef? } := by
  refine ⟨hoffset, ?members, ?bases, ?typedefs⟩
  case members =>
      refine Entry.forall₂_playing h fun x part hpart => ?_
      cases part <;> simp [Option.guard, hpart.1, ClassPart.member?, hpart.2]
  case bases =>
      refine Entry.forall₂_playing h fun x part hpart => ?_
      cases part <;> simp [Option.guard, hpart.1, ClassPart.base?, hpart.2]
  case typedefs =>
      refine Entry.forall₂_playing h fun x part hpart => ?_
      cases part <;> simp [Option.guard, hpart.1, ClassPart.typedef?, hpart.2]

theorem ClassType.tells_ofEntry {kind : ClassKind} {e : Entry} (hd : e.debug.WellLinked)
    (htag : e.tag = kind.tag) :
    Tells (ofEntry kind e) fun c ws =>
      c.Accounts e ∧ ws = Visit.warnings (e.visits .classBody) := by
  have hstart : ReadFrom e
      { offset := e.offset, kind, name := "", byteSize := 0, members := [], bases := []
        typedefs := [], functions := [] } :=
    ⟨rfl, htag, rfl, by simp, by simp, by simp⟩
  refine (blind_refine (blind_addAttribute e) _ _).tells_bind
    (yields_refine hstart fun _ h a _ => yields_addAttribute h a) fun c hc => ?_
  obtain rfl : c.kind = kind := ClassKind.tag_injective (hc.tag_eq.symm.trans htag)
  refine tells_bind ((Entry.tells_visits hd fun _ hx => ClassPart.tells_ofEntry c.kind hx).mono ?_)
  rintro parts _ ⟨hparts, rfl⟩
  exact tells_pure ⟨accounts_of_parts hc.offset_eq hparts, List.append_nil _⟩

/-! ## Routine types -/

/-- A record in a routine was read into the part, as its tag says. -/
def SignaturePart.OfRecord (x : Entry) : SignaturePart → Prop
  | parameter p => Container.signatureRole? x.tag = some .parameter ∧ p.OfRecord x
  | more => Container.signatureRole? x.tag = some .more

/-- In a container that takes the record for what a signature takes it for. -/
theorem SignaturePart.tells_ofEntry {c : Container} {e x : Entry} (hx : x ∈ e.children)
    (hc : c.role? x.tag = Container.signatureRole? x.tag) :
    Tells (ofEntry e x)
      (Visit.Met { container := c, parent := some e, entry := x } x.visits (OfRecord x)) := by
  have hpadding := (Entry.mem_children_iff.mp hx).2.2
  unfold ofEntry
  cases htag : x.tag with
  | formalParameter =>
      have hrole : Container.signatureRole? x.tag = some .parameter := by rw [htag]; rfl
      refine Visit.tells_leaf (hc.trans hrole) ?_
        ((Local.tells_ofEntry x).mono fun _ _ h => ⟨⟨hrole, h.1⟩, h.2⟩)
      rw [Container.inside?, hc, hrole]
  | unspecifiedParameters =>
      have hrole : Container.signatureRole? x.tag = some .more := by rw [htag]; rfl
      refine Visit.tells_found (hc.trans hrole) ?_ hrole
      rw [Container.inside?, hc, hrole]
  | _ => exact Visit.tells_unknown (hc.trans (by rw [htag]; rfl)) hpadding rfl

/-- The parameters of a routine are the records in it with this role, and it takes
more arguments if there is a record that says so. -/
structure RoutineType.Accounts (c : Container) (e : Entry) (t : RoutineType) : Prop where
  offset_eq : t.offset = e.offset
  parameters : List.Forall₂ Local.OfRecord (e.playing c .parameter) t.parameters
  variadic : t.variadic = true ↔ e.playing c .more ≠ []

def SignaturePart.more? : SignaturePart → Option Unit
  | parameter _ => none
  | more => some ()

theorem SignaturePart.contains_more_iff {parts : List SignaturePart} :
    parts.contains more = true ↔ parts.filterMap more? ≠ [] := by
  rw [List.contains_iff_mem, ne_eq, List.filterMap_eq_nil_iff]
  constructor
  · intro hmem hnone
    cases hnone _ hmem
  · intro hsome
    by_contra hmem
    refine hsome fun part hpart => ?_
    cases part with
    | parameter p => rfl
    | more => exact absurd hpart hmem

/-- What a signature is made of when the parts of its container that belong to it
have been picked out. -/
theorem RoutineType.accounts_of_parts {c : Container} {e : Entry} {t : RoutineType} {β : Type}
    {Q : Entry → β → Prop} {bs : List β} (hoffset : t.offset = e.offset)
    (pick : β → Option SignaturePart)
    (h : List.Forall₂ Q (e.children.filter fun x => (c.role? x.tag).isSome) bs)
    (hpick : ∀ x b, Q x b →
      (∃ part, pick b = some part ∧ part.OfRecord x ∧
        c.role? x.tag = Container.signatureRole? x.tag) ∨
      (pick b = none ∧ c.role? x.tag ≠ some .parameter ∧ c.role? x.tag ≠ some .more)) :
    Accounts c e { t with
      parameters := (bs.filterMap pick).filterMap SignaturePart.parameter?
      variadic := (bs.filterMap pick).contains .more } := by
  refine ⟨hoffset, ?parameters, ?variadic⟩
  case parameters =>
      dsimp only
      rw [List.filterMap_filterMap]
      refine Entry.forall₂_playing h fun x b hb => ?_
      rcases hpick x b hb with ⟨part, hpart, hrecord, hrole⟩ | ⟨hpart, hparameter, -⟩
      · cases part with
        | parameter p =>
            simp [Option.guard, hpart, hrole, hrecord.1, SignaturePart.parameter?, hrecord.2]
        | more =>
            have hmore : Container.signatureRole? x.tag = some .more := hrecord
            simp [Option.guard, hpart, hrole, hmore, SignaturePart.parameter?]
      · simp [Option.guard, hpart, hparameter]
  case variadic =>
      dsimp only
      have hmore : List.Forall₂ (fun _ _ => True) (e.playing c .more)
          (bs.filterMap fun b => (pick b).bind SignaturePart.more?) := by
        refine Entry.forall₂_playing h fun x b hb => ?_
        rcases hpick x b hb with ⟨part, hpart, hrecord, hrole⟩ | ⟨hpart, -, hmore⟩
        · cases part with
          | parameter p => simp [Option.guard, hpart, hrole, hrecord.1, SignaturePart.more?]
          | more =>
              have hmore : Container.signatureRole? x.tag = some .more := hrecord
              simp [Option.guard, hpart, hrole, hmore, SignaturePart.more?]
        · simp [Option.guard, hpart, hmore]
      rw [SignaturePart.contains_more_iff, List.filterMap_filterMap, ne_eq, ne_eq,
        ← List.length_eq_zero_iff, ← List.length_eq_zero_iff, hmore.length_eq]

theorem RoutineType.tells_ofEntry {e : Entry} (hd : e.debug.WellLinked) :
    Tells (ofEntry e) fun t ws =>
      t.Accounts .routineType e ∧ ws = Visit.warnings (e.visits .routineType) := by
  refine (blind_refine (blind_addAttribute e) _ _).tells_bind
    (yields_refine (readFrom_start e) fun _ h a _ => yields_addAttribute h a) fun t ht => ?_
  refine tells_bind ((Entry.tells_visits hd fun _ hx =>
    SignaturePart.tells_ofEntry (c := .routineType) hx rfl).mono ?_)
  rintro parts _ ⟨hparts, rfl⟩
  have haccounts := accounts_of_parts ht.declares.offset_eq some hparts fun x part hpart =>
    .inl ⟨part, rfl, hpart, rfl⟩
  rw [List.filterMap_some] at haccounts
  exact tells_pure ⟨haccounts, List.append_nil _⟩

/-! ## Functions -/

/-- The variables read are the local variables of a visit and of those inside the
record. -/
def Visit.Declares (v : Visit) (inner : Container → List Visit) (found : List Local) : Prop :=
  List.Forall₂ Local.OfRecord (locals (v.subtree inner)) found

section Declares

variable {c : Container} {parent : Option Entry} {x : Entry} {inner : Container → List Visit}

theorem Visit.tells_variable {β : Type} {Q : β → Prop} {g : List Local → β}
    (hrole : c.role? x.tag = some .local)
    (hQ : ∀ found, Declares { container := c, parent, entry := x } inner found → Q (g found)) :
    Tells (do return some (g [← Local.ofEntry x]))
      (Met { container := c, parent, entry := x } inner Q) := by
  have hinside : c.inside? x.tag = none := by rw [Container.inside?, hrole]
  refine tells_leaf hrole hinside ((Local.tells_ofEntry x).mono fun l _ h => ?_)
  refine ⟨hQ [l] ?_, h.2⟩
  simpa [Declares, subtree, locals, role?, hrole, hinside] using h.1

theorem Visit.tells_block {β : Type} {Q : β → Prop} {g : List Local → β} {read : Build (List Local)}
    (hrole : c.role? x.tag = some .block)
    (hread : Tells read fun found ws =>
      List.Forall₂ Local.OfRecord (locals (inner .block)) found ∧ ws = warnings (inner .block))
    (hQ : ∀ found, Declares { container := c, parent, entry := x } inner found → Q (g found)) :
    Tells (do return some (g (← read))) (Met { container := c, parent, entry := x } inner Q) := by
  have hinside : c.inside? x.tag = some .block := by rw [Container.inside?, hrole]
  refine tells_read hrole hinside (hread.mono fun found _ h => ⟨hQ found ?_, h.2⟩)
  simpa [Declares, subtree, locals, role?, hrole, hinside] using h.1

end Declares

/-- The variables in a block and in the blocks inside it are the local variables met
there. -/
theorem tells_blockLocals : ∀ (depth : Nat) (block : Entry),
    Tells (blockLocals depth block) fun found ws =>
      List.Forall₂ Local.OfRecord (Visit.locals (Entry.visitsTo depth .block block)) found ∧
        ws = Visit.warnings (Entry.visitsTo depth .block block)
  | 0, _ => tells_pure ⟨.nil, rfl⟩
  | depth + 1, block => by
      have hattributes := blind_refine (fun _ a => blind_checkBlockAttribute block a) ()
        block.attributes
      refine hattributes.tells_bind yields_true fun _ _ => ?_
      let inner (x : Entry) (c' : Container) := Entry.visitsTo depth c' x
      let OfChild (x : Entry) :=
        Visit.Declares { container := .block, parent := some block, entry := x } (inner x)
      refine tells_bind
        ((@Entry.tells_children block .block _ OfChild inner _ fun x hx => ?_).mono ?_)
      · have hpadding := (Entry.mem_children_iff.mp hx).2.2
        cases htag : x.tag with
        | localVariable => exact Visit.tells_variable (by rw [htag]; rfl) fun _ h => h
        | lexicalBlock =>
            exact Visit.tells_block (by rw [htag]; rfl) (tells_blockLocals depth x) fun _ h => h
        | _ => exact Visit.tells_unknown (by rw [htag]; rfl) hpadding rfl
      · rintro found _ ⟨hfound, rfl⟩
        have hlocals := Entry.forall₂_locals hfound fun _ _ h => h
        rw [List.flatMap_id'] at hlocals
        exact tells_pure ⟨hlocals, List.append_nil _⟩

theorem Container.blockRole?_eq_none {tag : Tag} (hvariable : tag ≠ .localVariable)
    (hblock : tag ≠ .lexicalBlock) : blockRole? tag = none := by
  unfold blockRole?
  split
  · exact absurd rfl hvariable
  · exact absurd rfl hblock
  · rfl

/-- A record in a function was read into the part, as its tag says. -/
def FunctionPart.OfRecord (e x : Entry) : FunctionPart → Prop
  | signature part => part.OfRecord x ∧
      Container.function.role? x.tag = Container.signatureRole? x.tag
  | locals found =>
      Visit.Declares { container := .function, parent := some e, entry := x } x.visits found ∧
        (Container.blockRole? x.tag).isSome

theorem FunctionPart.tells_ofEntry {e x : Entry} (hx : x ∈ e.children) :
    Tells (ofEntry e x)
      (Visit.Met { container := .function, parent := some e, entry := x } x.visits
        (OfRecord e x)) := by
  unfold ofEntry
  split
  case h_1 htag =>
      refine Visit.tells_variable (g := locals) (by rw [htag]; rfl) fun _ h => ⟨h, ?_⟩
      rw [htag]
      rfl
  case h_2 htag =>
      refine Visit.tells_block (g := locals) (by rw [htag]; rfl) (tells_blockLocals _ x)
        fun _ h => ⟨h, ?_⟩
      rw [htag]
      rfl
  case h_3 hvariable hblock =>
      have hnone := Container.blockRole?_eq_none hvariable hblock
      have hrole : Container.function.role? x.tag = Container.signatureRole? x.tag := by
        rw [Container.role?, hnone, Option.none_or]
      exact Visit.tells_map (SignaturePart.tells_ofEntry hx hrole) fun _ h => ⟨h, hrole⟩

/-- The local variables of a function are those met in it and in its blocks. -/
structure Function.Accounts (e : Entry) (f : Function) : Prop where
  signature : f.signature.Accounts .function e
  locals : List.Forall₂ Local.OfRecord (Visit.locals (e.visits .function)) f.locals

theorem Container.signatureRole?_ne_local {tag : Tag} : signatureRole? tag ≠ some .local := by
  unfold signatureRole?
  split <;> simp

theorem Container.role?_of_isSome_blockRole? {tag : Tag} (h : (blockRole? tag).isSome) :
    function.role? tag ≠ some .parameter ∧ function.role? tag ≠ some .more := by
  unfold blockRole? at h
  split at h
  case h_1 => decide
  case h_2 => decide
  case h_3 => cases h

theorem Function.accounts_of_parts {e : Entry} (hd : e.debug.WellLinked) {f : Function}
    {parts : List FunctionPart} (hoffset : f.signature.offset = e.offset)
    (h : List.Forall₂ (FunctionPart.OfRecord e)
      (e.children.filter fun x => (Container.function.role? x.tag).isSome) parts) :
    let signature := parts.filterMap FunctionPart.signature?
    Accounts e { f with
      signature := { f.signature with
        parameters := signature.filterMap SignaturePart.parameter?
        variadic := signature.contains .more }
      locals := parts.flatMap FunctionPart.declared } := by
  refine ⟨RoutineType.accounts_of_parts hoffset _ h fun x part hpart => ?_, ?_⟩
  · cases part with
    | signature part => exact .inl ⟨part, rfl, hpart⟩
    | locals found => exact .inr ⟨rfl, Container.role?_of_isSome_blockRole? hpart.2⟩
  · rw [Entry.visits_eq hd]
    refine Entry.forall₂_locals h fun x part hpart => ?_
    cases part with
    | locals found => exact hpart.1
    | signature part =>
        have hlocals : Visit.locals (Visit.subtree
            { container := .function, parent := some e, entry := x } x.visits) = [] := by
          have hrole : Visit.role? { container := .function, parent := some e, entry := x } =
            Container.signatureRole? x.tag := hpart.2
          have hinside : Container.function.inside? x.tag = none := by
            cases part with
            | parameter p => rw [Container.inside?, hpart.2, hpart.1.1]
            | more =>
                have hmore : Container.signatureRole? x.tag = some .more := hpart.1
                rw [Container.inside?, hpart.2, hmore]
          simp [Visit.subtree, hinside, Visit.locals, hrole, Container.signatureRole?_ne_local]
        rw [hlocals]
        exact .nil

theorem Function.tells_ofEntry {e : Entry} (hd : e.debug.WellLinked) :
    Tells (ofEntry e) fun f ws =>
      f.Accounts e ∧ ws = Visit.warnings (e.visits .function) := by
  refine (blind_refine (blind_addAttribute e) _ _).tells_bind
    (yields_refine (P := fun f => f.signature.ReadFrom e ∧ f.lines = [])
      ⟨RoutineType.readFrom_start e, rfl⟩ fun _ h a _ => yields_addAttribute h.1 h.2 a)
    fun f hf => ?_
  refine tells_bind ((Entry.tells_visits hd fun _ hx => FunctionPart.tells_ofEntry hx).mono ?_)
  rintro parts _ ⟨hparts, rfl⟩
  exact tells_pure ⟨accounts_of_parts hd hf.1.declares.offset_eq hparts, List.append_nil _⟩

/-! ## Units -/

/-- The record itself was read into the variable. -/
def Variable.OfRecord (x : Entry) (v : Variable) : Prop :=
  v.offset = x.offset ∧ (ofEntry x).Reads v

theorem Variable.tells_ofEntry (x : Entry) :
    Tells (ofEntry x) fun v ws => v.OfRecord x ∧ ws = [] :=
  (blind_ofEntry x).tells ((yields_ofEntry x).mono fun _ h => h.offset_eq)

/-- A type is what its record was read into, and accounts for the records inside if
these are walked. -/
def UserType.Accounts (x : Entry) : UserType → Prop
  | ofClass c => c.Accounts x
  | ofEnum t => t.offset = x.offset ∧ (EnumType.ofEntry x).Reads t
  | ofArray t => t.offset = x.offset ∧ (ArrayType.ofEntry x).Reads t
  | ofRoutine t => t.Accounts .routineType x
  | ofMemberPointer t => t.offset = x.offset ∧ (MemberPointerType.ofEntry x).Reads t

theorem UserType.Accounts.offset_eq {x : Entry} : ∀ {t : UserType}, t.Accounts x →
    t.offset = x.offset
  | ofClass _, h => ClassType.Accounts.offset_eq h
  | ofEnum _, h => h.1
  | ofArray _, h => h.1
  | ofRoutine _, h => RoutineType.Accounts.offset_eq h
  | ofMemberPointer _, h => h.1

/-- Functions found later change nothing. -/
theorem UserType.Accounts.addFunctions {x : Entry} (functions : List UInt32) :
    ∀ {t : UserType}, t.Accounts x → (t.addFunctions functions).Accounts x
  | ofClass _, h => ⟨h.offset_eq, h.members, h.bases, h.typedefs⟩
  | ofEnum _, h => h
  | ofArray _, h => h
  | ofRoutine _, h => h
  | ofMemberPointer _, h => h

/-- A record in a unit was read into the part, as its tag says. -/
def UnitPart.OfRecord (x : Entry) : UnitPart → Prop
  | ofType t => Container.unit.role? x.tag = some .type ∧ t.Accounts x
  | ofFunction f => Container.unit.role? x.tag = some .function ∧ f.Accounts x
  | ofVariable v => Container.unit.role? x.tag = some .variable ∧ v.OfRecord x

theorem UnitPart.tells_ofEntry {e x : Entry} (hd : x.debug.WellLinked) (hx : x ∈ e.children) :
    Tells (ofEntry e x)
      (Visit.Met { container := .unit, parent := some e, entry := x } x.visits (OfRecord x)) := by
  have hpadding := (Entry.mem_children_iff.mp hx).2.2
  have hclass {kind : ClassKind} (htag : x.tag = kind.tag) :
      Tells (do return some (ofType (.ofClass (← ClassType.ofEntry kind x))))
        (Visit.Met { container := .unit, parent := some e, entry := x } x.visits (OfRecord x)) := by
    have hrole : Container.unit.role? x.tag = some .type := by
      rw [htag]
      cases kind <;> rfl
    have hinside : Container.unit.inside? x.tag = some .classBody := by
      rw [htag]
      cases kind <;> rfl
    exact Visit.tells_read (g := fun c => ofType (.ofClass c)) hrole hinside
      ((ClassType.tells_ofEntry hd htag).mono fun _ _ h => ⟨⟨hrole, h.1⟩, h.2⟩)
  unfold ofEntry
  cases htag : x.tag with
  | classType | structureType | unionType => exact hclass htag
  | enumerationType =>
      have hrole : Container.unit.role? x.tag = some .type := by rw [htag]; rfl
      exact Visit.tells_leaf (g := fun t => ofType (.ofEnum t)) hrole (by rw [htag]; rfl)
        (((EnumType.blind_ofEntry x).tells (EnumType.yields_ofEntry x)).mono
          fun _ _ h => ⟨⟨hrole, h.1⟩, h.2⟩)
  | arrayType =>
      have hrole : Container.unit.role? x.tag = some .type := by rw [htag]; rfl
      exact Visit.tells_leaf (g := fun t => ofType (.ofArray t)) hrole (by rw [htag]; rfl)
        (((ArrayType.blind_ofEntry x).tells (ArrayType.yields_ofEntry x)).mono
          fun _ _ h => ⟨⟨hrole, h.1.1.offset_eq, h.1.2⟩, h.2⟩)
  | subroutineType =>
      have hrole : Container.unit.role? x.tag = some .type := by rw [htag]; rfl
      have hinside : Container.unit.inside? x.tag = some .routineType := by rw [htag]; rfl
      exact Visit.tells_read (g := fun t => ofType (.ofRoutine t)) hrole hinside
        ((RoutineType.tells_ofEntry hd).mono fun _ _ h => ⟨⟨hrole, h.1⟩, h.2⟩)
  | pointerToMemberType =>
      have hrole : Container.unit.role? x.tag = some .type := by rw [htag]; rfl
      exact Visit.tells_leaf (g := fun t => ofType (.ofMemberPointer t)) hrole (by rw [htag]; rfl)
        (((MemberPointerType.blind_ofEntry x).tells (MemberPointerType.yields_ofEntry x)).mono
          fun _ _ h => ⟨⟨hrole, h.1.1.offset_eq, h.1.2⟩, h.2⟩)
  | subroutine | globalSubroutine | inlinedSubroutine =>
      have hrole : Container.unit.role? x.tag = some .function := by rw [htag]; rfl
      have hinside : Container.unit.inside? x.tag = some .function := by rw [htag]; rfl
      exact Visit.tells_read (g := ofFunction) hrole hinside
        ((Function.tells_ofEntry hd).mono fun _ _ h => ⟨⟨hrole, h.1⟩, h.2⟩)
  | globalVariable | localVariable =>
      have hrole : Container.unit.role? x.tag = some .variable := by rw [htag]; rfl
      exact Visit.tells_leaf (g := ofVariable) hrole (by rw [htag]; rfl)
        ((Variable.tells_ofEntry x).mono fun _ _ h => ⟨⟨hrole, h.1⟩, h.2⟩)
  | _ => exact Visit.tells_unknown (by rw [htag]; rfl) hpadding rfl

/-- A file lists the records in its unit that have a role there. -/
structure File.Accounts (e : Entry) (f : File) : Prop where
  offset_eq : f.offset = e.offset
  types_eq : f.types = (e.playing .unit .type).map Entry.offset
  functions_eq : f.functions = (e.playing .unit .function).map Entry.offset
  vars_eq : f.vars = (e.playing .unit .variable).map Entry.offset

/-- A unit declares what the records in it with these roles were read into. -/
structure CompileUnit.Accounts (e : Entry) (u : CompileUnit) : Prop where
  file : u.file.Accounts e
  types : List.Forall₂ UserType.Accounts (e.playing .unit .type)
    (u.parts.filterMap UnitPart.asType?)
  functions : List.Forall₂ Function.Accounts (e.playing .unit .function)
    (u.parts.filterMap UnitPart.asFunction?)
  vars : List.Forall₂ Variable.OfRecord (e.playing .unit .variable)
    (u.parts.filterMap UnitPart.asVariable?)

theorem Entry.map_offset_of_forall₂ {α : Type} {R : Entry → α → Prop} {offset : α → UInt32}
    (hoffset : ∀ x a, R x a → offset a = x.offset) {xs : List Entry} {as : List α}
    (h : List.Forall₂ R xs as) : as.map offset = xs.map Entry.offset := by
  induction h with
  | nil => rfl
  | cons ha _ ih => rw [List.map_cons, List.map_cons, hoffset _ _ ha, ih]

theorem CompileUnit.accounts_of_parts {e : Entry} {file : File} {parts : List UnitPart}
    (hoffset : file.offset = e.offset)
    (h : List.Forall₂ UnitPart.OfRecord
      (e.children.filter fun x => (Container.unit.role? x.tag).isSome) parts) :
    Accounts e
      { parts
        file := { file with
          types := (parts.filterMap UnitPart.asType?).map UserType.offset
          functions := (parts.filterMap UnitPart.asFunction?).map Function.offset
          vars := (parts.filterMap UnitPart.asVariable?).map Variable.offset } } := by
  have htypes : List.Forall₂ UserType.Accounts (e.playing .unit .type)
      (parts.filterMap UnitPart.asType?) := by
    refine Entry.forall₂_playing h fun x part hpart => ?_
    cases part <;> simp [Option.guard, hpart.1, UnitPart.asType?, hpart.2]
  have hfunctions : List.Forall₂ Function.Accounts (e.playing .unit .function)
      (parts.filterMap UnitPart.asFunction?) := by
    refine Entry.forall₂_playing h fun x part hpart => ?_
    cases part <;> simp [Option.guard, hpart.1, UnitPart.asFunction?, hpart.2]
  have hvars : List.Forall₂ Variable.OfRecord (e.playing .unit .variable)
      (parts.filterMap UnitPart.asVariable?) := by
    refine Entry.forall₂_playing h fun x part hpart => ?_
    cases part <;> simp [Option.guard, hpart.1, UnitPart.asVariable?, hpart.2]
  refine ⟨⟨hoffset, ?_, ?_, ?_⟩, htypes, hfunctions, hvars⟩
  · exact Entry.map_offset_of_forall₂ (fun _ _ ht => ht.offset_eq) htypes
  · exact Entry.map_offset_of_forall₂ (fun _ _ hf => hf.signature.offset_eq) hfunctions
  · exact Entry.map_offset_of_forall₂ (fun _ _ hv => hv.1) hvars

theorem CompileUnit.tells_ofEntry {e : Entry} (hd : e.debug.WellLinked) :
    Tells (ofEntry e) fun u ws => u.Accounts e ∧ ws = Visit.warnings (e.visits .unit) := by
  refine (blind_refine (File.blind_addAttribute e) _ _).tells_bind
    (yields_refine (P := fun f => f.offset = e.offset ∧ f.lineTable = none) ⟨rfl, rfl⟩
      fun _ h a _ => File.yields_addAttribute h a) fun file hfile => ?_
  refine tells_bind ((Entry.tells_visits hd fun x hx => UnitPart.tells_ofEntry
    (by rwa [Entry.debug_of_mem_children hx]) hx).mono ?_)
  rintro parts _ ⟨hparts, rfl⟩
  exact tells_pure ⟨accounts_of_parts hfile.1 hparts, List.append_nil _⟩

/-! ## Programs -/

/-- The units among the roots. -/
def DebugInfo.unitEntries (d : DebugInfo) : List Entry :=
  d.rootEntries.filter (·.tag = .compileUnit)

theorem Entry.visits_of_isPadding {e : Entry} (hd : e.debug.WellLinked)
    (hpadding : e.record.isPadding = true) (c : Container) : e.visits c = [] := by
  have hfirst : e.debug.firstChild e.place = none := by
    rw [Option.eq_none_iff_forall_ne_some]
    intro i hi
    have hsolid := (hd.firstChild_eq e.place i hi).2.2
    exact absurd (hpadding.symm.trans hsolid) (by decide)
  have hwalk := (hd.children e.place).1
  rw [hfirst] at hwalk
  rw [visits_eq hd, children, Links.Walk.done.unique hwalk]
  rfl

/-- Padding at the top gives no warning, and a unit that is padding has nothing
inside. -/
theorem CompileUnit.tells_ofRoot {e : Entry} (hd : e.debug.WellLinked) :
    Tells (ofRoot e) fun found ws =>
      ws = (if e.record.isPadding then [] else
        Visit.warnings (Visit.subtree { container := .top, parent := none, entry := e } e.visits)) ∧
        if e.tag = .compileUnit then ∃ u, found = some u ∧ u.Accounts e else found = none := by
  unfold ofRoot
  split
  case h_1 htag =>
      refine tells_bind ((tells_ofEntry hd).mono ?_)
      rintro u _ ⟨hu, rfl⟩
      refine tells_pure ⟨?_, ?_⟩
      · cases hpadding : e.record.isPadding with
        | true =>
            rw [Entry.visits_of_isPadding hd hpadding]
            rfl
        | false =>
            simp [Visit.subtree, Container.inside?, Container.role?, htag, Visit.warnings,
              Visit.role?]
      · rw [if_pos htag]
        exact ⟨u, rfl, hu⟩
  case h_2 htag =>
      have htag : e.tag ≠ .compileUnit := htag
      have hrole : Container.top.role? e.tag = none := if_neg htag
      cases hpadding : e.record.isPadding with
      | true =>
          have hunknown : e.unknown "(root)" = pure () := by
            rw [Entry.unknown, hpadding]
            rfl
          rw [hunknown]
          exact tells_pure ⟨rfl, by rw [if_neg htag]⟩
      | false =>
          have hunknown : Tells (do e.unknown "(root)"; return none)
              (Visit.Met { container := .top, parent := none, entry := e } e.visits (Accounts e)) :=
            Visit.tells_unknown hrole hpadding rfl
          refine hunknown.mono fun found ws h => ⟨h.1, ?_⟩
          have hfound := h.2
          rw [if_neg htag]
          simpa [Visit.role?, hrole] using hfound

/-- The units read account for the units among the roots, and the warnings are those
about all visits. -/
theorem DebugInfo.tells_roots {d : DebugInfo} (hd : d.WellLinked) :
    Tells (gather CompileUnit.ofRoot d.rootEntries) fun units ws =>
      List.Forall₂ CompileUnit.Accounts d.unitEntries units ∧ ws = Visit.warnings d.visits := by
  have hroots : ∀ e ∈ d.rootEntries, e.debug = d := by
    intro e he
    obtain ⟨i, -, rfl⟩ := List.mem_map.mp he
    rfl
  have hwarnings : Visit.warnings d.visits = d.rootEntries.flatMap fun e =>
      if e.record.isPadding then [] else
        Visit.warnings
          (Visit.subtree { container := .top, parent := none, entry := e } e.visits) := by
    rw [visits, Entry.visitsAll, Visit.warnings_flatMap]
    generalize d.rootEntries = es
    induction es with
    | nil => rfl
    | cons e es ih =>
        cases hpadding : e.record.isPadding with
        | true => simp [hpadding, ih]
        | false => simp [hpadding, ih]
  rw [hwarnings]
  refine tells_gather fun e he => (CompileUnit.tells_ofRoot (by rwa [hroots e he])).mono
    fun found ws h => ⟨h.1, ?_⟩
  simpa using h.2

/-- In a section where records are found by their offsets no two have the same. -/
theorem DebugInfo.Indexed.eq_of_offset_eq {d : DebugInfo} (hd : d.Indexed) {e e' x x' : Entry}
    (he : e.debug = d) (he' : e'.debug = d) (hx : x ∈ e.children) (hx' : x' ∈ e'.children)
    (hoffset : x.offset = x'.offset) : x = x' := by
  obtain ⟨debug, i⟩ := x
  obtain ⟨debug', i'⟩ := x'
  obtain ⟨rfl, hplace, -⟩ := Entry.mem_children_iff.mp hx
  obtain ⟨rfl, hplace', -⟩ := Entry.mem_children_iff.mp hx'
  obtain rfl := he
  rw [he'] at hplace' hoffset ⊢
  have hfound : e.debug.find? (e.debug.record i).offset = some i := hd e.place i hplace
  have hfound' : e.debug.find? (e.debug.record i').offset = some i' := hd e'.place i' hplace'
  rw [show (e.debug.record i).offset = (e.debug.record i').offset from hoffset, hfound',
    Option.some.injEq] at hfound
  rw [hfound]

namespace Program

/-- What lies in a map was read from a record under whose offset it lies, and for
each record there is something. -/
structure Keeps {α : Type} (m : Std.TreeMap UInt32 α) (xs : List Entry) (R : Entry → α → Prop) :
    Prop where
  mem : ∀ x ∈ xs, x.offset ∈ m
  exists_of_getElem? : ∀ (o : UInt32) a, m[o]? = some a → ∃ x ∈ xs, x.offset = o ∧ R x a

theorem exists_of_mem_of_forall₂ {α β : Type} {R : α → β → Prop} {xs : List α} {ys : List β}
    (h : List.Forall₂ R xs ys) {y : β} (hy : y ∈ ys) : ∃ x ∈ xs, R x y := by
  induction h with
  | nil => cases hy
  | cons hR _ ih =>
      rcases List.mem_cons.mp hy with rfl | hy
      · exact ⟨_, List.mem_cons_self, hR⟩
      · obtain ⟨x, hx, hR⟩ := ih hy
        exact ⟨x, List.mem_cons_of_mem _ hx, hR⟩

theorem keeps_insertAll {α : Type} {R : Entry → α → Prop} {offset : α → UInt32} {xs : List Entry}
    {as : List α} (hoffset : ∀ x a, R x a → offset a = x.offset) (h : List.Forall₂ R xs as) :
    Keeps (insertAll offset ∅ as) xs R := by
  constructor
  case mem =>
      intro x hx
      have hmem : x.offset ∈ as.map offset := by
        rw [Entry.map_offset_of_forall₂ hoffset h]
        exact List.mem_map_of_mem hx
      obtain ⟨a, ha, heq⟩ := List.mem_map.mp hmem
      rw [Std.TreeMap.mem_iff_isSome_getElem?, getElem?_insertAll, Std.TreeMap.getElem?_emptyc,
        Option.or_none, List.find?_isSome]
      exact ⟨a, List.mem_reverse.mpr ha, decide_eq_true heq⟩
  case exists_of_getElem? =>
      intro o a ha
      obtain ⟨hmem, rfl⟩ := mem_of_getElem?_insertAll ha
      obtain ⟨x, hx, hR⟩ := exists_of_mem_of_forall₂ h hmem
      exact ⟨x, hx, (hoffset x a hR).symm, hR⟩

/-- A program has a file for each unit, and in its maps are the types, functions
and variables in the units. -/
structure Accounts (p : Program) (units : List Entry) : Prop where
  files : List.Forall₂ File.Accounts units p.files.toList
  types : Keeps p.types (units.flatMap (·.playing .unit .type)) UserType.Accounts
  functions : Keeps p.functions (units.flatMap (·.playing .unit .function)) Function.Accounts
  vars : Keeps p.vars (units.flatMap (·.playing .unit .variable)) Variable.OfRecord

theorem accounts_entered {d : DebugInfo} {es : List Entry} {units : List CompileUnit}
    (h : List.Forall₂ CompileUnit.Accounts es units) : (entered d units).Accounts es := by
  rw [entered_eq]
  constructor
  case files =>
      rw [List.forall₂_map_right_iff]
      exact h.imp fun _ _ hu => hu.file
  case types =>
      exact keeps_insertAll (fun _ _ ht => ht.offset_eq) (List.rel_flatMap h fun _ _ hu => hu.types)
  case functions =>
      exact keeps_insertAll (fun _ _ hf => hf.signature.offset_eq)
        (List.rel_flatMap h fun _ _ hu => hu.functions)
  case vars =>
      exact keeps_insertAll (fun _ _ hv => hv.1) (List.rel_flatMap h fun _ _ hu => hu.vars)

/-- Linking only gives classes their functions. -/
theorem Accounts.congr_linkedBy {p p' : Program} {es : List Entry} (h : p.Accounts es)
    {links : List (UInt32 × UInt32)} (hlinks : LinkedBy links p p') : p'.Accounts es := by
  have htypes : Keeps p'.types (es.flatMap (·.playing .unit .type)) UserType.Accounts := by
    constructor
    case mem =>
        intro x hx
        rw [Std.TreeMap.mem_iff_isSome_getElem?, hlinks.types, Option.isSome_map,
          ← Std.TreeMap.mem_iff_isSome_getElem?]
        exact h.types.mem x hx
    case exists_of_getElem? =>
        intro o t ht
        rw [hlinks.types] at ht
        obtain ⟨t₀, ht₀, rfl⟩ := Option.map_eq_some_iff.mp ht
        obtain ⟨x, hx, hoffset, haccounts⟩ := h.types.exists_of_getElem? o t₀ ht₀
        exact ⟨x, hx, hoffset, haccounts.addFunctions _⟩
  rw [hlinks.eq_types]
  exact ⟨h.files, htypes, h.functions, h.vars⟩

/-- Lines and line tables are of no account. -/
theorem Accounts.congr_linesAside {p p' : Program} {es : List Entry} (h : p.Accounts es)
    (hlines : LinesAside p p') : p'.Accounts es := by
  constructor
  case files =>
      have hfiles : p'.files.toList.map File.withoutTable =
          p.files.toList.map File.withoutTable := by
        rw [← Array.toList_map, ← Array.toList_map, hlines.files]
      have haside : List.Forall₂ File.Accounts es (p.files.toList.map File.withoutTable) := by
        rw [List.forall₂_map_right_iff]
        exact h.files.imp fun _ _ hf => ⟨hf.offset_eq, hf.types_eq, hf.functions_eq, hf.vars_eq⟩
      rw [← hfiles, List.forall₂_map_right_iff] at haside
      exact haside.imp fun _ _ hf => ⟨hf.offset_eq, hf.types_eq, hf.functions_eq, hf.vars_eq⟩
  case types =>
      rw [hlines.types_eq]
      exact h.types
  case functions =>
      refine ⟨fun x hx => hlines.mem_functions_iff.mpr (h.functions.mem x hx), fun o f hf => ?_⟩
      have hsame := hlines.functions o
      rw [hf, Option.map_some] at hsame
      obtain ⟨f₀, hf₀, heq⟩ := Option.map_eq_some_iff.mp hsame.symm
      obtain ⟨x, hx, hoffset, haccounts⟩ := h.functions.exists_of_getElem? o f₀ hf₀
      have haside : f.withoutLines.Accounts x := heq ▸ ⟨haccounts.signature, haccounts.locals⟩
      exact ⟨x, hx, hoffset, haside.signature, haside.locals⟩
  case vars =>
      rw [hlines.vars_eq]
      exact h.vars

/-- The passes over what was read warn of functions and lines, not of records. -/
theorem filter_unknownEntry (ws : List Diagnostic) (read : Program) (links : List (UInt32 × UInt32))
    (p : Program) (files : List File) :
    (ws ++ (read.unlinked links ++ files.flatMap p.outsideOf)).filter (·.kind = .unknownEntry) =
      ws.filter (·.kind = .unknownEntry) := by
  have hlinks : (read.unlinked links).filter (·.kind = .unknownEntry) = [] := by
    rw [List.filter_eq_nil_iff]
    intro w hw
    simp [kind_of_mem_unlinked hw]
  have hlines : (files.flatMap p.outsideOf).filter (·.kind = .unknownEntry) = [] := by
    rw [List.filter_eq_nil_iff]
    intro w hw
    obtain ⟨file, -, hw⟩ := List.mem_flatMap.mp hw
    simp [kind_of_mem_outsideOf hw]
  rw [List.filter_append, List.filter_append, hlinks, hlines, List.append_nil, List.append_nil]

/-- A walk is the reading of the units and two passes that change nothing about
records. -/
theorem accounts_of_walk [RangeMap UInt32] {d : DebugInfo} (hd : d.WellLinked)
    {kept kept' : Diagnostics} {p : Program} (h : walk d kept = .ok (p, kept')) :
    p.Accounts d.unitEntries ∧ ∃ ws, kept' = kept.reportAll ws ∧
      ws.filter (·.kind = .unknownEntry) = Visit.warnings d.visits := by
  obtain ⟨read, afterUnits, linked, afterLinks, hread, hlinks, hlines⟩ := walk_eq_ok_iff.mp h
  obtain ⟨units, hgather, rfl⟩ := readUnits_eq_ok_iff.mp hread
  obtain ⟨linked', p', hgives, hgives', hpassed⟩ :=
    exists_gives_passes (exists_readFrom_of_gather hgather)
  obtain ⟨rfl, rfl⟩ := hgives.eq_of_ok hlinks
  obtain ⟨rfl, rfl⟩ := hgives'.eq_of_ok hlines
  obtain ⟨ws, rfl, haccounts, hws⟩ := DebugInfo.tells_roots hd kept units afterUnits hgather
  have haside := (accounts_entered haccounts).congr_linkedBy hpassed.members
  refine ⟨haside.congr_linesAside hpassed.lines.linesAside,
    ws ++ ((entered d units).unlinked (entered d units).memberLinks ++
      linked.settled.flatMap linked.outsideOf), ?_, ?_⟩
  · rw [Diagnostics.reportAll_append, Diagnostics.reportAll_append]
  · rw [filter_unknownEntry, hws]

theorem accounts_of_build [RangeMap UInt32] {order : ByteOrder} {bytes : List UInt8}
    {line : Option (List UInt8)} {d : DebugInfo} (hd : DebugInfo.decode order bytes line = .ok d)
    {settings : DiagnosticSettings} {p : Program} {shown : Diagnostics}
    (hp : build d settings = .ok (p, shown)) : d.WellLinked ∧ p.Accounts d.unitEntries := by
  obtain ⟨rs, tables, -, -, rfl⟩ := DebugInfo.decode_eq_ok_iff.mp hd
  have hlinked := @DebugInfo.wellLinked_assemble order rs tables
  exact ⟨hlinked, (accounts_of_walk hlinked hp).1⟩

/-- Every record that the walk meets is accounted for.  Where it has a role, it is in
the value made of what it was met in, in its place among the others of the role;
where it has none, there is one warning.  The warnings come as the records are met,
and there are no others about records.  In a section that 32 bits can address no
record takes the place of another. -/
theorem accounted_of_build [RangeMap UInt32] {order : ByteOrder} {bytes : List UInt8}
    {line : Option (List UInt8)} {d : DebugInfo} (hd : DebugInfo.decode order bytes line = .ok d)
    {p : Program} {shown : Diagnostics} (hp : build d .everything = .ok (p, shown)) :
    p.Accounts d.unitEntries ∧
      shown.reported.toList.filter (·.kind = .unknownEntry) = Visit.warnings d.visits ∧
      (∀ (e : Entry) c, e.debug = d → e.visits c = Entry.visitsAll c (some e) e.children) ∧
      (bytes.length < 2 ^ 32 → ∀ e e' : Entry, e.debug = d → e'.debug = d →
        ∀ x ∈ e.children, ∀ x' ∈ e'.children, x.offset = x'.offset → x = x') := by
  have hlinked : d.WellLinked := by
    obtain ⟨rs, tables, -, -, rfl⟩ := DebugInfo.decode_eq_ok_iff.mp hd
    exact DebugInfo.wellLinked_assemble order tables
  obtain ⟨haccounts, ws, rfl, hws⟩ := accounts_of_walk hlinked hp
  refine ⟨haccounts, ?_, ?_, ?_⟩
  · rw [Diagnostics.reported_reportAll_everything, hws]
  · rintro e c rfl
    exact Entry.visits_eq hlinked c
  · intro hbytes e e' he he' x hx x' hx' hoffset
    exact (DebugInfo.indexed_of_decode hbytes hd).eq_of_offset_eq he he' hx hx' hoffset

/-- A class with a stray parameter behind its member and a null record in front, a
function with a variable and a stray member in a block, and a stray typedef. -/
def misplaced : List UInt8 :=
  [0, 0, 0, 12, 0, 0x11, 0, 0x12, 0, 0, 0, 142,
   0, 0, 0, 12, 0, 2, 0, 0x12, 0, 0, 0, 58,
   0, 0, 0, 6, 0, 0x0d,
   0, 0, 0, 12, 0, 0x0d, 0, 0x12, 0, 0, 0, 42,
   0, 0, 0, 12, 0, 5, 0, 0x12, 0, 0, 0, 54,
   0, 0, 0, 4,
   0, 0, 0, 12, 0, 0x14, 0, 0x12, 0, 0, 0, 126,
   0, 0, 0, 12, 0, 5, 0, 0x12, 0, 0, 0, 82,
   0, 0, 0, 12, 0, 0x0b, 0, 0x12, 0, 0, 0, 122,
   0, 0, 0, 12, 0, 0x0c, 0, 0x12, 0, 0, 0, 106,
   0, 0, 0, 12, 0, 0x0d, 0, 0x12, 0, 0, 0, 118,
   0, 0, 0, 4,
   0, 0, 0, 4,
   0, 0, 0, 12, 0, 0x16, 0, 0x12, 0, 0, 0, 138,
   0, 0, 0, 4]

/-- Three of its records are warned of. -/
theorem accounted_misplaced : ∃ d p shown,
    DebugInfo.decode .big misplaced none = .ok d ∧ build d .everything = .ok (p, shown) ∧
      (Visit.warnings d.visits).map Diagnostic.offset = [42, 106, 126] ∧
      p.Accounts d.unitEntries ∧
      shown.reported.toList.filter (·.kind = .unknownEntry) = Visit.warnings d.visits ∧
      (∀ (e : Entry) c, e.debug = d → e.visits c = Entry.visitsAll c (some e) e.children) ∧
      (misplaced.length < 2 ^ 32 → ∀ e e' : Entry, e.debug = d → e'.debug = d →
        ∀ x ∈ e.children, ∀ x' ∈ e'.children, x.offset = x'.offset → x = x') := by
  obtain ⟨d, p, shown, hd, hp, hview⟩ := exists_of_outcomeUnder (show
    outcomeUnder .everything .big misplaced none
      (fun p => (Visit.warnings p.debug.visits).map Diagnostic.offset) = some [42, 106, 126] by
    decide +kernel)
  obtain rfl := (traced_of_walk hp).debug_eq
  exact ⟨_, p, shown, hd, hp, hview, accounted_of_build hd hp⟩

end Program
end DwarfOne
