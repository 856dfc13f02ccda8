/-
# `Proofs.Program.References` — the types a program refers to

Members, bases, typedefs, parameters, variables, results and targets of pointers
have types that resolve: the walk stops where one does not.  For the elements of
arrays nobody looks.  An element type is plain `int` or what the subscript data
of the array's own record gives, and that may lead nowhere.
-/
import DwarfOne.Proofs.Program.Passes

namespace DwarfOne

/-! ## The types an entity refers to -/

def ClassType.typeRefs (c : ClassType) : List TypeRef :=
  c.members.map Member.type ++ c.bases.map Base.type ++ c.typedefs.map Typedef.type

def RoutineType.typeRefs (t : RoutineType) : List TypeRef :=
  t.returnType :: t.parameters.map Local.type

def UserType.typeRefs : UserType → List TypeRef
  | ofClass c => c.typeRefs
  | ofEnum _ => []
  | ofArray t => [t.element]
  | ofRoutine t => t.typeRefs
  | ofMemberPointer t => [t.type]

def Function.typeRefs (f : Function) : List TypeRef :=
  f.signature.typeRefs ++ f.locals.map Local.type

@[simp] theorem UserType.typeRefs_addFunctions (t : UserType) (functions : List UInt32) :
    (t.addFunctions functions).typeRefs = t.typeRefs := by
  cases t <;> rfl

/-! ## They resolve -/

section ReadFrom

variable {e : Entry}

theorem ClassType.ReadFrom.resolves {c : ClassType} (h : c.ReadFrom e) :
    ∀ ty ∈ c.typeRefs, ty.Resolves e.debug := by
  intro ty hty
  rcases List.mem_append.mp hty with hty | hty
  · rcases List.mem_append.mp hty with hty | hty
    · obtain ⟨m, hm, rfl⟩ := List.mem_map.mp hty
      exact (h.members m hm).resolves
    · obtain ⟨b, hb, rfl⟩ := List.mem_map.mp hty
      exact h.bases b hb
  · obtain ⟨t, ht, rfl⟩ := List.mem_map.mp hty
    exact (h.typedefs t ht).resolves

theorem RoutineType.ReadFrom.resolves {t : RoutineType} (h : t.ReadFrom e) :
    ∀ ty ∈ t.typeRefs, ty.Resolves e.debug := by
  intro ty hty
  rcases List.mem_cons.mp hty with rfl | hty
  · exact h.declares.resolves
  · obtain ⟨l, hl, rfl⟩ := List.mem_map.mp hty
    exact (h.parameters l hl).resolves

theorem Function.ReadFrom.resolves {f : Function} (h : f.ReadFrom e) :
    ∀ ty ∈ f.typeRefs, ty.Resolves e.debug := by
  intro ty hty
  rcases List.mem_append.mp hty with hty | hty
  · exact h.signature.resolves ty hty
  · obtain ⟨l, hl, rfl⟩ := List.mem_map.mp hty
    exact (h.locals l hl).resolves

theorem UserType.ReadFrom.resolves {t : UserType} (h : t.ReadFrom e) (harray : ∀ a, t ≠ ofArray a) :
    ∀ ty ∈ t.typeRefs, ty.Resolves e.debug := by
  cases t with
  | ofClass c => exact ClassType.ReadFrom.resolves h
  | ofEnum t => exact fun _ hty => absurd hty List.not_mem_nil
  | ofArray a => exact absurd rfl (harray a)
  | ofRoutine t => exact RoutineType.ReadFrom.resolves h
  | ofMemberPointer t =>
      intro ty hty
      rw [List.mem_singleton.mp hty]
      exact Entry.Declares.resolves h

end ReadFrom

namespace Program

/-- The element type of an array that is at an offset is plain or given by the
subscript data of a record there. -/
def ElementGiven (d : DebugInfo) (o : UInt32) (element : TypeRef) : Prop :=
  element = .integer ∨ ∃ i, (d.record i).offset = o ∧ (d.record i).tag = .arrayType ∧
    (Entry.mk d i).GivesElement element

/-- All types but the elements of arrays resolve. -/
structure Resolved (p : Program) : Prop where
  types : ∀ (o : UInt32) t, p.types[o]? = some t → (∀ a, t ≠ .ofArray a) →
    ∀ ty ∈ t.typeRefs, ty.Resolves p.debug
  elements : ∀ (o : UInt32) a, p.types[o]? = some (.ofArray a) → ElementGiven p.debug o a.element
  functions : ∀ (o : UInt32) f, p.functions[o]? = some f → ∀ ty ∈ f.typeRefs, ty.Resolves p.debug
  vars : ∀ (o : UInt32) v, p.vars[o]? = some v → v.type.Resolves p.debug

theorem Traced.elementGiven {d : DebugInfo} {p : Program} (h : Traced d p) {o : UInt32}
    {a : ArrayType} (ha : p.types[o]? = some (.ofArray a)) : ElementGiven d o a.element := by
  obtain ⟨t₀, functions, e, heq, -, rfl, hdeclared⟩ := h.types o _ ha
  cases t₀ with
  | ofArray a₀ =>
      cases heq
      obtain ⟨htag, hread⟩ := hdeclared.readFrom
      have hread : a.ReadFrom e := hread
      obtain rfl := hdeclared.debug_eq
      refine hread.element.imp_right fun hgiven => ⟨e.place, ?_, htag, hgiven⟩
      exact hread.offset_eq.symm
  | _ => cases heq

/-- A program that is built refers to types that are there, but for the elements
of its arrays. -/
theorem resolved_of_build [RangeMap UInt32] {d : DebugInfo} {settings : DiagnosticSettings}
    {p : Program} {shown : Diagnostics} (hp : build d settings = .ok (p, shown)) :
    p.debug = d ∧ p.Resolved := by
  have htraced := traced_of_walk hp
  obtain rfl := htraced.debug_eq
  refine ⟨rfl, fun o t ht harray => ?_, fun o a => htraced.elementGiven, fun o f hf => ?_,
    fun o v hv => ?_⟩
  · obtain ⟨t₀, functions, e, rfl, -, -, hdeclared⟩ := htraced.types o t ht
    rw [UserType.typeRefs_addFunctions, ← hdeclared.debug_eq]
    refine UserType.ReadFrom.resolves hdeclared.readFrom.2 ?_
    rintro a rfl
    exact harray a rfl
  · obtain ⟨f₀, e, hsame, -, hdeclared⟩ := htraced.functions o f hf
    have hrefs : f.typeRefs = f₀.typeRefs := by
      show f.withoutLines.typeRefs = f₀.withoutLines.typeRefs
      rw [hsame]
    rw [hrefs, ← hdeclared.debug_eq]
    exact hdeclared.readFrom.2.resolves
  · obtain ⟨e, -, hdeclared⟩ := htraced.vars o v hv
    rw [← hdeclared.debug_eq]
    exact hdeclared.readFrom.2.resolves

/-- A structure with a member whose type is an array of such structures. -/
def selfContaining : List UInt8 :=
  [0, 0, 0, 12, 0, 0x11, 0, 0x12, 0, 0, 0, 73,
   0, 0, 0, 12, 0, 0x13, 0, 0x12, 0, 0, 0, 46,
   0, 0, 0, 18, 0, 0x0d, 0, 0x12, 0, 0, 0, 42, 0, 0x72, 0, 0, 0, 46,
   0, 0, 0, 4,
   0, 0, 0, 23, 0, 1, 0, 0x12, 0, 0, 0, 69, 0, 0xa3, 0, 7, 8, 0, 0x72, 0, 0, 0, 12,
   0, 0, 0, 4]

theorem resolved_selfContaining : ∃ d p shown,
    DebugInfo.decode .big selfContaining none = .ok d ∧ build d .default = .ok (p, shown) ∧
      p.types.values.map UserType.typeRefs = [[.user 46], [.user 12]] ∧ p.debug = d ∧
      p.Resolved := by
  obtain ⟨d, p, shown, hd, hp, hrefs⟩ := exists_of_outcome (show
    outcome .big selfContaining (fun p => p.types.values.map UserType.typeRefs) =
      some [[.user 46], [.user 12]] by decide +kernel)
  exact ⟨d, p, shown, hd, hp, hrefs, resolved_of_build hp⟩

/-- An array whose subscript data gives a type at an offset where there is no
record. -/
def danglingElement : List UInt8 :=
  [0, 0, 0, 16, 0, 0x11, 0, 0x12, 0, 0, 0, 47, 0, 0x38, 97, 0,
   0, 0, 0, 27, 0, 1, 0, 0x12, 0, 0, 0, 43, 0, 0x38, 118, 0,
   0, 0xa3, 0, 7, 8, 0, 0x72, 0, 0, 0xde, 0xad,
   0, 0, 0, 4]

theorem not_resolves_danglingElement : ∃ d p shown,
    DebugInfo.decode .big danglingElement none = .ok d ∧ build d .default = .ok (p, shown) ∧
      ∃ a, p.types[(16 : UInt32)]? = some (.ofArray a) ∧ ¬ a.element.Resolves p.debug := by
  obtain ⟨d, p, shown, hd, hp, hview⟩ := exists_of_outcome (show
    outcome .big danglingElement (fun p => (p.types[(16 : UInt32)]?, p.debug.find? 0xdead)) =
      some (some (.ofArray { offset := 16, name := "v", element := .user 0xdead
                             dimensions := [] }), none) by decide +kernel)
  obtain ⟨ht, hfind⟩ := Prod.mk.inj hview
  refine ⟨d, p, shown, hd, hp, _, ht, ?_⟩
  rintro (⟨id, hid⟩ | ⟨offset, place, hoffset, hplace⟩)
  · cases hid
  · cases hoffset
    rw [hfind] at hplace
    cases hplace

end Program
end DwarfOne
