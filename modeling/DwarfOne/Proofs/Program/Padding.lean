/-
# `Proofs.Program.Padding` — what padding contributes

Null records and padding say nothing, so nothing in a program should come from
one.  A null record may be long enough to have a tag, and then only a look at its
length tells.  Inside a unit every walk looks: types, functions, variables,
members, typedefs, parameters and local variables all come from records that are
not padding.  On the topmost level nobody looks before a unit is read, so a null
record with the tag of a unit is a file (`nullUnit`).
-/
import DwarfOne.Proofs.Program.Units

namespace DwarfOne

/-- A record at an offset that is not padding. -/
def DebugInfo.Informs (d : DebugInfo) (o : UInt32) : Prop :=
  ∃ i, (d.record i).offset = o ∧ (d.record i).isPadding = false

namespace Entry

theorem informs_of_mem_children {e c : Entry} (h : c ∈ e.children) : e.debug.Informs c.offset := by
  obtain ⟨hdebug, -, hpadding⟩ := mem_children_iff.mp h
  rw [← hdebug]
  exact ⟨c.place, rfl, hpadding⟩

/-- However deep inside, a record that counts as inside is not padding. -/
theorem Contains.informs {e c : Entry} (h : e.Contains c) : e.debug.Informs c.offset := by
  induction h with
  | child hc => exact informs_of_mem_children hc
  | deeper hb _ ih => rwa [debug_of_mem_children hb] at ih

theorem DeclaresInside.informs {e : Entry} {offset : UInt32} {type : TypeRef}
    (h : e.DeclaresInside offset type) : e.debug.Informs offset := by
  obtain ⟨c, hc, hdeclares⟩ := h
  rw [hdeclares.offset_eq]
  exact hc.informs

end Entry

/-! ## What an entity is made of -/

/-- The members and typedefs of a class, and the parameters of a routine. -/
def UserType.partOffsets : UserType → List UInt32
  | ofClass c => c.members.map Member.offset ++ c.typedefs.map Typedef.offset
  | ofRoutine t => t.parameters.map Local.offset
  | _ => []

/-- The parameters and variables of a function. -/
def Function.partOffsets (f : Function) : List UInt32 :=
  f.signature.parameters.map Local.offset ++ f.locals.map Local.offset

@[simp] theorem UserType.partOffsets_addFunctions (t : UserType) (functions : List UInt32) :
    (t.addFunctions functions).partOffsets = t.partOffsets := by
  cases t <;> rfl

section ReadFrom

variable {e : Entry}

theorem RoutineType.ReadFrom.informs {t : RoutineType} (h : t.ReadFrom e) :
    ∀ o ∈ t.parameters.map Local.offset, e.debug.Informs o := by
  intro o ho
  obtain ⟨l, hl, rfl⟩ := List.mem_map.mp ho
  exact (h.parameters l hl).informs

theorem UserType.ReadFrom.informs {t : UserType} (h : t.ReadFrom e) :
    ∀ o ∈ t.partOffsets, e.debug.Informs o := by
  intro o ho
  cases t with
  | ofClass c =>
      have hread : c.ReadFrom e := h
      rcases List.mem_append.mp ho with ho | ho
      · obtain ⟨m, hm, rfl⟩ := List.mem_map.mp ho
        exact (hread.members m hm).informs
      · obtain ⟨t, ht, rfl⟩ := List.mem_map.mp ho
        exact (hread.typedefs t ht).informs
  | ofRoutine t => exact RoutineType.ReadFrom.informs h o ho
  | _ => cases ho

theorem Function.ReadFrom.informs {f : Function} (h : f.ReadFrom e) :
    ∀ o ∈ f.partOffsets, e.debug.Informs o := by
  intro o ho
  rcases List.mem_append.mp ho with ho | ho
  · exact h.signature.informs o ho
  · obtain ⟨l, hl, rfl⟩ := List.mem_map.mp ho
    exact (h.locals l hl).informs

end ReadFrom

namespace Program

theorem Declared.informs {d : DebugInfo} {part : UnitPart} {e : Entry} (h : Declared d part e) :
    d.Informs e.offset := by
  obtain ⟨rfl, ⟨unit, hchild⟩, -⟩ := h
  rw [Entry.debug_of_mem_children hchild]
  exact Entry.informs_of_mem_children hchild

/-- All but files comes from records that are not padding.  Files come from roots
with the tag of a unit, and these are padding if and only if they are null. -/
structure Informed (p : Program) : Prop where
  files : ∀ f ∈ p.files, ∃ i ∈ p.debug.roots, (p.debug.record i).offset = f.offset ∧
    (p.debug.record i).tag = .compileUnit ∧
    (p.debug.record i).isPadding = (p.debug.record i).isNull
  types : ∀ (o : UInt32) t, p.types[o]? = some t →
    p.debug.Informs t.offset ∧ ∀ o ∈ t.partOffsets, p.debug.Informs o
  functions : ∀ (o : UInt32) f, p.functions[o]? = some f →
    p.debug.Informs f.offset ∧ ∀ o ∈ f.partOffsets, p.debug.Informs o
  vars : ∀ (o : UInt32) v, p.vars[o]? = some v → p.debug.Informs v.offset

/-- Padding inside units contributes nothing to a program that is built. -/
theorem informed_of_build [RangeMap UInt32] {d : DebugInfo} {settings : DiagnosticSettings}
    {p : Program} {shown : Diagnostics} (hp : build d settings = .ok (p, shown)) :
    p.debug = d ∧ p.Informed := by
  have htraced := traced_of_walk hp
  obtain rfl := htraced.debug_eq
  refine ⟨rfl, fun f hf => ?_, fun o t ht => ?_, fun o f hf => ?_, fun o v hv => ?_⟩
  · have hoffset : f.offset ∈ p.debug.unitOffsets := by
      rw [← offsets_of_walk hp]
      exact List.mem_map_of_mem (Array.mem_toList_iff.mpr hf)
    obtain ⟨i, hi, hrecord⟩ := List.mem_map.mp hoffset
    obtain ⟨hroot, htag⟩ := List.mem_filter.mp hi
    have htag := of_decide_eq_true htag
    exact ⟨i, hroot, hrecord, htag, by simp [Record.isPadding, htag]⟩
  · obtain ⟨t₀, functions, e, rfl, -, -, hdeclared⟩ := htraced.types o t ht
    have hread := hdeclared.readFrom.2
    rw [UserType.offset_addFunctions, UserType.partOffsets_addFunctions, hread.offset_eq]
    refine ⟨hdeclared.informs, ?_⟩
    rw [← hdeclared.debug_eq]
    exact hread.informs
  · obtain ⟨f₀, e, hsame, -, hdeclared⟩ := htraced.functions o f hf
    have hread := hdeclared.readFrom.2
    have hoffset : f.offset = e.offset := calc
      f.withoutLines.offset = f₀.withoutLines.offset := by rw [hsame]
      _ = e.offset := hread.signature.declares.offset_eq
    have hparts : f.withoutLines.partOffsets = f₀.withoutLines.partOffsets := by rw [hsame]
    rw [hoffset, show f.partOffsets = f₀.partOffsets from hparts]
    refine ⟨hdeclared.informs, ?_⟩
    rw [← hdeclared.debug_eq]
    exact hread.informs
  · obtain ⟨e, -, hdeclared⟩ := htraced.vars o v hv
    have hoffset : v.offset = e.offset := hdeclared.readFrom.2.offset_eq
    rw [hoffset]
    exact hdeclared.informs

/-- A class with a null record in front of its member, in a unit with a null
record that has the tag of a variable. -/
def paddedClass : List UInt8 :=
  [0, 0, 0, 12, 0, 0x11, 0, 0x12, 0, 0, 0, 57,
   0, 0, 0, 12, 0, 2, 0, 0x12, 0, 0, 0, 46,
   0, 0, 0, 6, 0, 0x0d,
   0, 0, 0, 12, 0, 0x0d, 0, 0x12, 0, 0, 0, 42,
   0, 0, 0, 4,
   0, 0, 0, 7, 0, 7, 0,
   0, 0, 0, 4]

theorem informed_paddedClass : ∃ d p shown,
    DebugInfo.decode .big paddedClass none = .ok d ∧ build d .default = .ok (p, shown) ∧
      (p.types.values.map UserType.partOffsets, p.vars.keys) = ([[30]], []) ∧
      p.debug = d ∧ p.Informed := by
  obtain ⟨d, p, shown, hd, hp, hview⟩ := exists_of_outcome (show
    outcome .big paddedClass (fun p => (p.types.values.map UserType.partOffsets, p.vars.keys)) =
      some ([[30]], []) by decide +kernel)
  exact ⟨d, p, shown, hd, hp, hview, informed_of_build hp⟩

/-- A null record with the tag of a unit. -/
def nullUnit : List UInt8 := [0, 0, 0, 6, 0, 0x11]

/-- It is a file, though nothing but padding is at its offset. -/
theorem not_informs_nullUnit : ∃ d p shown,
    DebugInfo.decode .big nullUnit none = .ok d ∧ build d .default = .ok (p, shown) ∧
      ∃ f ∈ p.files, ¬ p.debug.Informs f.offset := by
  obtain ⟨d, p, shown, hd, hp, hview⟩ := exists_of_outcome (show
    outcome .big nullUnit (fun p => (p.files.toList.map File.offset, p.debug.records)) =
      some ([0], #[{ offset := 0, length := 6, tag := .compileUnit
                     attributesStart := 0, attributesStop := 0 }]) by decide +kernel)
  obtain ⟨hfiles, hrecords⟩ := Prod.mk.inj hview
  have hmem : (0 : UInt32) ∈ p.files.toList.map File.offset := by
    rw [hfiles]
    exact List.mem_singleton_self 0
  obtain ⟨f, hf, -⟩ := List.mem_map.mp hmem
  refine ⟨d, p, shown, hd, hp, f, Array.mem_toList_iff.mp hf, ?_⟩
  rintro ⟨i, -, hpadding⟩
  rw [DebugInfo.record, hrecords] at hpadding
  cases i with
  | zero => cases hpadding
  | succ i => cases hpadding

end Program
end DwarfOne
