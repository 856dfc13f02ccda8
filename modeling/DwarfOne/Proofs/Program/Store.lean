/-
# `Proofs.Program.Store` — the maps of a program agree with its files

A program keeps types, functions and variables in three maps by offset, and its
files list the offsets.  Records can be met several times, from one unit or from
several, and later entries replace earlier ones.  Still the two sides agree, and
under every offset lies what the record there says: `Consistent`.

`Listed` is about files and holds from the time the units are entered; the later
passes do not disturb it.  What lies under an offset is traced to its record.
-/
import DwarfOne.Proofs.Program.Passes
import DwarfOne.Proofs.Record.Framing
import DwarfOne.Proofs.Record.Links

namespace DwarfOne

/-! ## Records in child lists -/

/-- Records that are children of others are found by their offsets. -/
def DebugInfo.Indexed (d : DebugInfo) : Prop :=
  ∀ i, ∀ c ∈ d.children i, d.find? (d.record c).offset = some c

theorem DebugInfo.indexed_of_decode {order : ByteOrder} {bytes : List UInt8}
    {line : Option (List UInt8)} {d : DebugInfo} (hbytes : bytes.length < 2 ^ 32)
    (h : decode order bytes line = .ok d) : d.Indexed := by
  obtain ⟨rs, tables, hrs, -, rfl⟩ := decode_eq_ok_iff.mp h
  obtain ⟨p, t, rfl, -, htiles⟩ := RawRecord.readAll_eq_ok_iff.mp hrs
  have hp : p.length < 2 ^ 32 := by
    rw [List.length_append] at hbytes
    omega
  intro i c hc
  exact find?_offset_assemble htiles hp
    ((wellLinked_assemble order tables).lt_size_of_mem_children hc)

namespace Program

/-! ## Lists of files -/

/-- The files list what the maps have. -/
structure Listed (p : Program) : Prop where
  types : ∀ o, o ∈ p.types ↔ ∃ f ∈ p.files, o ∈ f.types
  functions : ∀ o, o ∈ p.functions ↔ ∃ f ∈ p.files, o ∈ f.functions
  vars : ∀ o, o ∈ p.vars ↔ ∃ f ∈ p.files, o ∈ f.vars

theorem mem_insertAll_iff {α : Type} {offset : α → UInt32} {units : List CompileUnit}
    {pick : UnitPart → Option α} {listed : File → List UInt32}
    (hlisted : ∀ u ∈ units, listed u.file = (u.parts.filterMap pick).map offset) {o : UInt32} :
    o ∈ insertAll offset ∅ (declared pick units) ↔
      ∃ f ∈ (units.map CompileUnit.file).toArray, o ∈ listed f := by
  rw [Std.TreeMap.mem_iff_isSome_getElem?, getElem?_insertAll, Std.TreeMap.getElem?_emptyc,
    Option.or_none, List.find?_isSome]
  constructor
  · rintro ⟨a, ha, ho⟩
    obtain ⟨u, hu, ha⟩ := List.mem_flatMap.mp (List.mem_reverse.mp ha)
    refine ⟨u.file, by simpa using ⟨u, hu, rfl⟩, ?_⟩
    rw [hlisted u hu]
    exact List.mem_map.mpr ⟨a, ha, of_decide_eq_true ho⟩
  · rintro ⟨f, hf, ho⟩
    obtain ⟨u, hu, rfl⟩ : ∃ u ∈ units, u.file = f := by simpa using hf
    rw [hlisted u hu] at ho
    obtain ⟨a, ha, rfl⟩ := List.mem_map.mp ho
    exact ⟨a, List.mem_reverse.mpr (List.mem_flatMap.mpr ⟨u, hu, ha⟩), decide_eq_true rfl⟩

theorem listed_entered {d : DebugInfo} {units : List CompileUnit}
    (hunits : ∀ u ∈ units, ∃ e : Entry, e.debug = d ∧ u.ReadFrom e) :
    (entered d units).Listed := by
  rw [entered_eq]
  refine ⟨fun o => mem_insertAll_iff fun u hu => ?_, fun o => mem_insertAll_iff fun u hu => ?_,
    fun o => mem_insertAll_iff fun u hu => ?_⟩
  · obtain ⟨e, -, hread⟩ := hunits u hu
    exact hread.types_eq
  · obtain ⟨e, -, hread⟩ := hunits u hu
    exact hread.functions_eq
  · obtain ⟨e, -, hread⟩ := hunits u hu
    exact hread.vars_eq

theorem Listed.congr_linkedBy {links : List (UInt32 × UInt32)} {p p' : Program} (h : p.Listed)
    (hlinks : LinkedBy links p p') : p'.Listed := by
  have htypes : ∀ o, o ∈ p'.types ↔ o ∈ p.types := by
    intro o
    rw [Std.TreeMap.mem_iff_isSome_getElem?, Std.TreeMap.mem_iff_isSome_getElem?,
      hlinks.types, Option.isSome_map]
  rw [hlinks.eq_types]
  exact ⟨fun o => (htypes o).trans (h.types o), h.functions, h.vars⟩

theorem Listed.congr_linesAside {p p' : Program} (h : p.Listed) (hlines : LinesAside p p') :
    p'.Listed := by
  have hfiles : ∀ listed : File → List UInt32, (∀ f, listed f.withoutTable = listed f) →
      ∀ o, (∃ f ∈ p.files, o ∈ listed f) ↔ ∃ f ∈ p'.files, o ∈ listed f := fun _ hlisted _ =>
    ⟨hlines.exists_mem_files hlisted, hlines.symm.exists_mem_files hlisted⟩
  constructor
  · intro o
    rw [hlines.types_eq, h.types o]
    exact hfiles _ (fun _ => rfl) o
  · intro o
    rw [hlines.mem_functions_iff, h.functions o]
    exact hfiles _ (fun _ => rfl) o
  · intro o
    rw [hlines.vars_eq, h.vars o]
    exact hfiles _ (fun _ => rfl) o

theorem listed_of_walk [RangeMap UInt32] {d : DebugInfo} {kept kept' : Diagnostics} {p : Program}
    (h : walk d kept = .ok (p, kept')) : p.Listed := by
  obtain ⟨units, -, linked, -, hpassed⟩ := exists_passed_of_walk h
  have hentered := listed_entered hpassed.readFrom
  exact (hentered.congr_linkedBy hpassed.members).congr_linesAside hpassed.lines.linesAside

/-! ## The three maps -/

/-- A record at an offset whose tag is one of these. -/
def RecordAt (d : DebugInfo) (o : UInt32) (tags : List Tag) : Prop :=
  ∃ i, d.find? o = some i ∧ (d.record i).offset = o ∧ (d.record i).tag ∈ tags

/-- Two maps whose entries come from records with different tags have no offset
in common. -/
theorem not_mem_of_recordAt {d : DebugInfo} {α β : Type} {m : Std.TreeMap UInt32 α}
    {m' : Std.TreeMap UInt32 β} {tags : α → List Tag} {tags' : β → List Tag}
    (hm : ∀ {o : UInt32} {a}, m[o]? = some a → RecordAt d o (tags a))
    (hm' : ∀ {o : UInt32} {b}, m'[o]? = some b → RecordAt d o (tags' b))
    (htags : ∀ a b, ∀ tag ∈ tags a, tag ∉ tags' b) : ∀ o ∈ m, o ∉ m' := by
  intro o ho ho'
  obtain ⟨a, ha⟩ := exists_getElem?_of_mem ho
  obtain ⟨b, hb⟩ := exists_getElem?_of_mem ho'
  obtain ⟨i, hi, -, htag⟩ := hm ha
  obtain ⟨j, hj, -, htag'⟩ := hm' hb
  rw [hi, Option.some.injEq] at hj
  subst hj
  exact htags a b _ htag htag'

theorem Declared.recordAt {d : DebugInfo} (hd : d.Indexed) {part : UnitPart} {e : Entry}
    (h : Declared d part e) {tags : List Tag} (htag : e.tag ∈ tags) : RecordAt d e.offset tags := by
  obtain ⟨rfl, ⟨unit, hchild⟩, -⟩ := h
  obtain ⟨hdebug, hplace, -⟩ := Entry.mem_children_iff.mp hchild
  rw [← hdebug] at hplace
  exact ⟨e.place, hd unit.place e.place hplace, rfl, htag⟩

section Traced

variable {d : DebugInfo} (hd : d.Indexed) {p : Program} (hp : Traced d p) {o : UInt32}
include hd hp

theorem Traced.type_at {t : UserType} (ht : p.types[o]? = some t) :
    t.offset = o ∧ RecordAt d o [t.tag] := by
  obtain ⟨t₀, functions, e, rfl, -, rfl, hdeclared⟩ := hp.types o t ht
  obtain ⟨htag, hread⟩ := hdeclared.readFrom
  rw [UserType.offset_addFunctions, UserType.tag_addFunctions, hread.offset_eq]
  exact ⟨rfl, hdeclared.recordAt hd (List.mem_singleton.mpr htag)⟩

theorem Traced.function_at {f : Function} (hf : p.functions[o]? = some f) :
    f.offset = o ∧ RecordAt d o Function.tags := by
  obtain ⟨f₀, e, hsame, rfl, hdeclared⟩ := hp.functions o f hf
  obtain ⟨htag, hread⟩ := hdeclared.readFrom
  have horigin : f₀.offset = e.offset := hread.signature.declares.offset_eq
  constructor
  · show f.withoutLines.offset = f₀.withoutLines.offset
    rw [hsame]
  · rw [horigin]
    exact hdeclared.recordAt hd htag

theorem Traced.variable_at {v : Variable} (hv : p.vars[o]? = some v) :
    v.offset = o ∧ RecordAt d o Variable.tags := by
  obtain ⟨e, rfl, hdeclared⟩ := hp.vars o v hv
  obtain ⟨htag, hdeclares⟩ := hdeclared.readFrom
  rw [hdeclares.offset_eq]
  exact ⟨rfl, hdeclared.recordAt hd htag⟩

end Traced

/-- The functions of a class are all there. -/
theorem Traced.mem_functions {d : DebugInfo} {p : Program} (hp : Traced d p) {o : UInt32}
    {c : ClassType} (hc : p.types[o]? = some (.ofClass c)) :
    ∀ g ∈ c.functions, g ∈ p.functions := by
  obtain ⟨t₀, functions, e, heq, hfunctions, -, hdeclared⟩ := hp.types o _ hc
  cases t₀ with
  | ofClass c₀ =>
      cases heq
      have hnone : c₀.functions = [] := ClassType.ReadFrom.functions_eq hdeclared.readFrom.2
      rw [hnone, List.nil_append]
      exact hfunctions
  | _ => cases heq

/-- No tag is shared between kinds of entities. -/
theorem tag_not_mem_tags (t : UserType) : t.tag ∉ Function.tags ∧ t.tag ∉ Variable.tags := by
  cases t with
  | ofClass c =>
      cases hkind : c.kind with
      | _ => simp [UserType.tag, hkind, ClassKind.tag, Function.tags, Variable.tags]
  | _ => simp [UserType.tag, Function.tags, Variable.tags]

/-- The maps agree with the files and with the records, no offset is in two
maps, and the functions of a class are there. -/
structure Consistent (p : Program) : Prop extends Listed p where
  type_at : ∀ (o : UInt32) t, p.types[o]? = some t → t.offset = o ∧ RecordAt p.debug o [t.tag]
  function_at : ∀ (o : UInt32) f, p.functions[o]? = some f →
    f.offset = o ∧ RecordAt p.debug o Function.tags
  variable_at : ∀ (o : UInt32) v, p.vars[o]? = some v →
    v.offset = o ∧ RecordAt p.debug o Variable.tags
  types_functions : ∀ o ∈ p.types, o ∉ p.functions
  types_vars : ∀ o ∈ p.types, o ∉ p.vars
  functions_vars : ∀ o ∈ p.functions, o ∉ p.vars
  members : ∀ (o : UInt32) c, p.types[o]? = some (.ofClass c) → ∀ g ∈ c.functions, g ∈ p.functions

/-- A program that is built from a section is consistent. -/
theorem consistent_of_build [RangeMap UInt32] {order : ByteOrder} {bytes : List UInt8}
    {line : Option (List UInt8)} {d : DebugInfo} (hbytes : bytes.length < 2 ^ 32)
    (hd : DebugInfo.decode order bytes line = .ok d) {settings : DiagnosticSettings} {p : Program}
    {shown : Diagnostics} (hp : build d settings = .ok (p, shown)) :
    p.debug = d ∧ p.Consistent := by
  have hindexed := DebugInfo.indexed_of_decode hbytes hd
  have htraced := traced_of_walk hp
  obtain rfl := htraced.debug_eq
  have htypes {o : UInt32} {t : UserType} (ht : p.types[o]? = some t) :=
    (htraced.type_at hindexed ht).2
  have hfunctions {o : UInt32} {f : Function} (hf : p.functions[o]? = some f) :=
    (htraced.function_at hindexed hf).2
  have hvars {o : UInt32} {v : Variable} (hv : p.vars[o]? = some v) :=
    (htraced.variable_at hindexed hv).2
  refine ⟨rfl, listed_of_walk hp, fun _ _ => htraced.type_at hindexed,
    fun _ _ => htraced.function_at hindexed, fun _ _ => htraced.variable_at hindexed,
    not_mem_of_recordAt htypes hfunctions fun t _ tag htag => ?_,
    not_mem_of_recordAt htypes hvars fun t _ tag htag => ?_,
    not_mem_of_recordAt hfunctions hvars fun _ _ => by decide, fun _ _ => htraced.mem_functions⟩
  · rw [List.mem_singleton.mp htag]
    exact (tag_not_mem_tags t).1
  · rw [List.mem_singleton.mp htag]
    exact (tag_not_mem_tags t).2

/-- A unit with a function, the class it is a member of and a variable. -/
def sampleUnit : List UInt8 :=
  [0, 0, 0, 12, 0, 0x11, 0, 0x12, 0, 0, 0, 58,
   0, 0, 0, 18, 0, 6, 0, 0x12, 0, 0, 0, 30, 0x01, 0x42, 0, 0, 0, 30,
   0, 0, 0, 12, 0, 2, 0, 0x12, 0, 0, 0, 42,
   0, 0, 0, 12, 0, 7, 0, 0x12, 0, 0, 0, 54,
   0, 0, 0, 4]

theorem consistent_sampleUnit : sampleUnit.length < 2 ^ 32 ∧
    ∃ d p shown, DebugInfo.decode .big sampleUnit none = .ok d ∧
      build d .default = .ok (p, shown) ∧
      (p.types.keys, p.functions.keys, p.vars.keys) = ([30], [12], [42]) ∧
      p.debug = d ∧ p.Consistent := by
  have hlength : sampleUnit.length < 2 ^ 32 := by decide
  obtain ⟨d, p, shown, hd, hp, hkeys⟩ := exists_of_outcome (show
    outcome .big sampleUnit (fun p => (p.types.keys, p.functions.keys, p.vars.keys)) =
      some ([30], [12], [42]) by decide +kernel)
  exact ⟨hlength, d, p, shown, hd, hp, hkeys, consistent_of_build hlength hd hp⟩

end Program
end DwarfOne
