/-
# `Proofs.Source.Inlining` — types written out inside one another

A type that is written out may have others written out in it, and those others in
turn.  `Inlines` is one step of that.  If it never comes back to a type, no chain of
steps is longer than there are types, so the depth to which they are written out is
enough: everything is printed (`exists_render`), and writing out is what it would be
without a depth.

Types shown by name end a chain.  A class may hold pointers to itself as long as it
has a name to call it by.
-/
import DwarfOne.Proofs.Program.References
import DwarfOne.Proofs.Record.Assembly
import DwarfOne.Proofs.Source.Balance
import Mathlib.Data.Finset.Card
import Mathlib.Logic.Relation

namespace DwarfOne

namespace Source

/-! ## Chains -/

/-- Where the first type is written out, so is the second, inside it. -/
def Inlines (s : Source) (t u : UserType) : Prop :=
  ∃ ty ∈ s.uses t, ∃ o, ty.base = .user o ∧ s.inlined? o = .ok (some u)

/-- Chains from a type have fewer steps. -/
def Within (s : Source) : Nat → UserType → Prop
  | 0, _ => False
  | n + 1, t => ∀ u, s.Inlines t u → s.Within n u

/-- The types of the program. -/
def modelled (s : Source) : List UserType :=
  s.program.types.toList.map Prod.snd

variable {s : Source}

theorem mem_modelled_iff {t : UserType} :
    t ∈ s.modelled ↔ ∃ o : UInt32, s.program.types[o]? = some t := by
  rw [modelled, List.mem_map]
  constructor
  · rintro ⟨⟨o, t⟩, hmem, rfl⟩
    exact ⟨o, Std.TreeMap.mem_toList_iff_getElem?_eq_some.mp hmem⟩
  · rintro ⟨o, ho⟩
    exact ⟨(o, t), Std.TreeMap.mem_toList_iff_getElem?_eq_some.mpr ho, rfl⟩

theorem getElem?_of_inlined? {o : UInt32} {t : UserType} (h : s.inlined? o = .ok (some t)) :
    s.program.types[o]? = some t := by
  obtain ⟨name, -, hfound⟩ := exists_nameOf_of_inlined? h
  split at hfound
  · exact hfound.symm
  · cases hfound

theorem mem_modelled_of_inlined? {o : UInt32} {t : UserType} (h : s.inlined? o = .ok (some t)) :
    t ∈ s.modelled :=
  mem_modelled_iff.mpr ⟨o, getElem?_of_inlined? h⟩

theorem Within.mono {n m : Nat} {t : UserType} (h : s.Within n t) (hnm : n ≤ m) : s.Within m t := by
  induction n generalizing m t with
  | zero => exact h.elim
  | succ n ih =>
      obtain ⟨m, rfl⟩ : ∃ k, m = k + 1 := ⟨m - 1, by omega⟩
      intro u hu
      exact ih (h u hu) (by omega)

/-- The types on chains from a type. -/
noncomputable def reached (s : Source) (t : UserType) : Finset UserType := by
  classical exact s.modelled.toFinset.filter (Relation.ReflTransGen s.Inlines t)

theorem mem_reached_iff {t u : UserType} :
    u ∈ s.reached t ↔ u ∈ s.modelled ∧ Relation.ReflTransGen s.Inlines t u := by
  classical simp [reached]

theorem not_rel_self_of_acc {α : Type} {r : α → α → Prop} {a : α} (h : Acc r a) : ¬ r a a := by
  induction h with
  | intro a _ ih => exact fun ha => ih a ha ha

/-- What does not come back to itself reaches less with each step. -/
theorem reached_ssubset {t u : UserType} (ht : t ∈ s.modelled)
    (hacc : Acc (fun u t => s.Inlines t u) t) (hu : s.Inlines t u) : s.reached u ⊂ s.reached t := by
  refine Finset.ssubset_iff_of_subset (fun v hv => ?_) |>.mpr ⟨t, ?_, ?_⟩
  · obtain ⟨hmem, hpath⟩ := mem_reached_iff.mp hv
    exact mem_reached_iff.mpr ⟨hmem, .head hu hpath⟩
  · exact mem_reached_iff.mpr ⟨ht, .refl⟩
  · intro hback
    have hcycle : Relation.TransGen s.Inlines t t := .head' hu (mem_reached_iff.mp hback).2
    exact not_rel_self_of_acc hacc.transGen (Relation.transGen_swap.mpr hcycle)

theorem within_card_reached {t : UserType} (ht : t ∈ s.modelled)
    (hacc : Acc (fun u t => s.Inlines t u) t) : s.Within (s.reached t).card t := by
  induction hacc with
  | intro t hpred ih =>
      have hacc : Acc (fun u t => s.Inlines t u) t := .intro t hpred
      have hpos : 0 < (s.reached t).card :=
        Finset.card_pos.mpr ⟨t, mem_reached_iff.mpr ⟨ht, .refl⟩⟩
      obtain ⟨n, hn⟩ : ∃ n, (s.reached t).card = n + 1 := ⟨(s.reached t).card - 1, by omega⟩
      rw [hn]
      intro u hu
      have hlt := Finset.card_lt_card (reached_ssubset ht hacc hu)
      obtain ⟨ty, -, o, -, hfound⟩ := id hu
      exact (ih u hu (mem_modelled_of_inlined? hfound)).mono (by omega)

/-- No chain is longer than there are types. -/
theorem within_size {t : UserType} (ht : t ∈ s.modelled)
    (hacc : Acc (fun u t => s.Inlines t u) t) : s.Within s.program.types.size t := by
  refine (within_card_reached ht hacc).mono ?_
  classical
  calc (s.reached t).card ≤ s.modelled.toFinset.card := Finset.card_le_card fun u hu =>
        List.mem_toFinset.mpr (mem_reached_iff.mp hu).1
    _ ≤ s.modelled.length := s.modelled.toFinset_card_le
    _ = s.program.types.size := by rw [modelled, List.length_map, Std.TreeMap.length_toList]

/-! ## Depth -/

/-- Errors about the names that stand in a type are allowed. -/
structure NamesAllowed (E : RenderError → Prop) (s : Source) (t : UserType) : Prop where
  uses : ∀ ty ∈ s.uses t, ∀ o, ty.base = .user o → Named E s o
  owners : ∀ o ∈ s.owners t, Named E s o

/-- Types in which errors about names are allowed, with all that are written out in
them. -/
structure Allowing (E : RenderError → Prop) (s : Source) (P : UserType → Prop) : Prop where
  names : ∀ t, P t → NamesAllowed E s t
  closed : ∀ t u, P t → s.Inlines t u → P u

variable {E : RenderError → Prop} {P : UserType → Prop}

/-- At any two depths that are enough a type is written out in the same way. -/
theorem fits_nestedTo (hP : Allowing E s P) {n m m' : Nat} (hm : n ≤ m) (hm' : n ≤ m')
    {t : UserType} (ht : P t) (h : s.Within n t) :
    FitsWritten E (s.nestedTo m) (s.nestedTo m') t := by
  induction n generalizing m m' t with
  | zero => exact h.elim
  | succ n ih =>
      obtain ⟨k, rfl⟩ : ∃ k, m = k + 1 := ⟨m - 1, by omega⟩
      obtain ⟨k', rfl⟩ : ∃ k', m' = k' + 1 := ⟨m' - 1, by omega⟩
      have hnames := hP.names t ht
      refine fits_written (fun ty hty => ?_) hnames.owners
      refine fits_of_base (hnames.uses ty hty) fun o u hbase hfound => ?_
      have hu : s.Inlines t u := ⟨ty, hty, o, hbase, hfound⟩
      exact ih (by omega) (by omega) (hP.closed t u ht hu) (h u hu)

/-- Nothing that is written out for the type comes back to itself. -/
def Finite (s : Source) (ty : TypeRef) : Prop :=
  ∀ o t, ty.base = .user o → s.inlined? o = .ok (some t) → Acc (fun u t => s.Inlines t u) t

theorem Finite.of_wellFounded (h : WellFounded fun u t => s.Inlines t u) (ty : TypeRef) :
    s.Finite ty :=
  fun _ t _ _ => h.apply t

/-- The depth there is is enough. -/
theorem fits_writtenOut (hP : Allowing E s P) {ty : TypeRef}
    (hty : ∀ o, ty.base = .user o → Named E s o)
    (hinlined : ∀ o t, ty.base = .user o → s.inlined? o = .ok (some t) → P t) (h : s.Finite ty) :
    Fits E s s.writtenOut s.writtenOut ty := by
  refine fits_of_base hty fun o t hbase hfound => ?_
  exact fits_nestedTo hP le_rfl le_rfl (hinlined o t hbase hfound)
    (within_size (mem_modelled_of_inlined? hfound) (h o t hbase hfound))

/-- Writing a type out is what it would be without a depth. -/
theorem writtenOut_eq (hP : Allowing E s P) {t : UserType} (ht : t ∈ s.modelled) (hPt : P t)
    (hacc : Acc (fun u t => s.Inlines t u) t) (indent : Nat) (ms : List Modifier) :
    s.writtenOut.front indent t ms = s.writtenFront s.writtenOut indent t ms ∧
      s.writtenOut.back indent t ms = s.writtenBack s.writtenOut indent t ms := by
  obtain ⟨n, hn⟩ := fits_nestedTo hP le_rfl (Nat.le_succ s.program.types.size) hPt
    (within_size ht hacc) ms
  exact ⟨(hn indent).front.1, (hn indent).back.1⟩

end Source

/-! ## References that lead somewhere -/

/-- The records that a type refers to. -/
def UserType.references (t : UserType) : List UInt32 :=
  t.typeRefs.filterMap TypeRef.userOffset? ++
    match t with
    | ofMemberPointer p => [p.owner]
    | _ => []

/-- The records that a function refers to. -/
def Function.references (f : Function) : List UInt32 :=
  f.typeRefs.filterMap TypeRef.userOffset? ++ f.owner.toList

namespace Program

/-- A type of the program or a record. -/
def Knows (p : Program) (o : UInt32) : Prop :=
  o ∈ p.types ∨ (p.debug.find? o).isSome

/-- Every reference leads to a type or a record. -/
structure AllKnown (p : Program) : Prop where
  types : ∀ (o : UInt32) t, p.types[o]? = some t → ∀ u ∈ t.references, p.Knows u
  functions : ∀ (o : UInt32) f, p.functions[o]? = some f → ∀ u ∈ f.references, p.Knows u
  vars : ∀ (o : UInt32) v, p.vars[o]? = some v → ∀ u ∈ v.type.userOffset?, p.Knows u

theorem Knows.exists_typeName {p : Program} {o : UInt32} (h : p.Knows o) :
    ∃ name, p.typeName o = .ok name := by
  unfold typeName
  cases ht : p.types[o]? with
  | some t => exact ⟨t.name, rfl⟩
  | none =>
      rcases h with h | h
      · obtain ⟨t, ht'⟩ := exists_getElem?_of_mem h
        rw [ht] at ht'
        cases ht'
      · obtain ⟨place, hplace⟩ := Option.isSome_iff_exists.mp h
        rw [hplace]
        exact ⟨_, rfl⟩

end Program

namespace Source

variable {s : Source}

theorem named_of_knows {o : UInt32} (h : s.program.Knows o) : Named (fun _ => False) s o := by
  intro e he
  obtain ⟨name, hname⟩ := h.exists_typeName
  rw [nameOf, hname] at he
  cases he

/-- The bases of some types are known. -/
def KnownBases (s : Source) (tys : List TypeRef) : Prop :=
  ∀ ty ∈ tys, ∀ o, ty.base = .user o → s.program.Knows o

theorem knownBases_of_filterMap {tys : List TypeRef}
    (h : ∀ u ∈ tys.filterMap TypeRef.userOffset?, s.program.Knows u) : s.KnownBases tys := by
  intro ty hty o hbase
  refine h o (List.mem_filterMap.mpr ⟨ty, hty, ?_⟩)
  rw [TypeRef.userOffset?, hbase]

theorem shown_subset (r : RoutineType) : r.shown.map Local.type ⊆ r.parameters.map Local.type :=
  List.map_subset _ (List.filter_subset_self _)

theorem signatureRefs_subset (f : Function) : f.signatureRefs ⊆ f.typeRefs := by
  intro ty hty
  refine List.mem_append_left _ ?_
  rcases List.mem_append.mp hty with hty | hty
  · split at hty
    · rw [List.mem_singleton.mp hty]
      exact List.mem_cons_self
    · exact absurd hty List.not_mem_nil
  · exact List.mem_cons_of_mem _ (shown_subset f.signature hty)

theorem exists_of_mem_methods {c : ClassType} {f : Function} (h : f ∈ s.methods c) :
    ∃ o : UInt32, s.program.functions[o]? = some f := by
  obtain ⟨o, -, ho⟩ := List.mem_filterMap.mp h
  exact ⟨o, ho⟩

section Known

variable (h : s.program.AllKnown) {o : UInt32}
include h

theorem knownBases_typeRefs {t : UserType} (ht : s.program.types[o]? = some t) :
    s.KnownBases t.typeRefs :=
  knownBases_of_filterMap fun u hu => h.types o t ht u (List.mem_append_left _ hu)

theorem knownBases_functionRefs {f : Function} (hf : s.program.functions[o]? = some f) :
    s.KnownBases f.typeRefs :=
  knownBases_of_filterMap fun u hu => h.functions o f hf u (List.mem_append_left _ hu)

theorem knownBases_uses {t : UserType} (ht : s.program.types[o]? = some t) :
    s.KnownBases (s.uses t) := by
  have hrefs := knownBases_typeRefs h ht
  intro ty hty
  cases t with
  | ofClass c =>
      simp only [uses, List.mem_append] at hty
      rcases hty with ((hty | hty) | hty) | hty
      · exact hrefs ty (List.mem_append_left _ (List.mem_append_right _ hty))
      · exact hrefs ty (List.mem_append_right _ hty)
      · exact hrefs ty (List.mem_append_left _ (List.mem_append_left _ hty))
      · obtain ⟨f, hf, hty⟩ := List.mem_flatMap.mp hty
        obtain ⟨o, ho⟩ := exists_of_mem_methods hf
        exact knownBases_functionRefs h ho ty (signatureRefs_subset f hty)
  | ofEnum e => exact absurd hty List.not_mem_nil
  | ofArray a => exact hrefs ty hty
  | ofRoutine r =>
      rcases List.mem_cons.mp hty with rfl | hty
      · exact hrefs _ List.mem_cons_self
      · exact hrefs ty (List.mem_cons_of_mem _ (shown_subset r hty))
  | ofMemberPointer p => exact hrefs ty hty

theorem named_of_mem_owner {f : Function} (hf : s.program.functions[o]? = some f) :
    ∀ u ∈ f.owner, Named (fun _ => False) s u := by
  intro u hu
  refine named_of_knows (h.functions o f hf u (List.mem_append_right _ ?_))
  exact Option.mem_toList.mpr hu

theorem named_of_mem_owners {t : UserType} (ht : s.program.types[o]? = some t) :
    ∀ u ∈ s.owners t, Named (fun _ => False) s u := by
  intro u hu
  cases t with
  | ofClass c =>
      obtain ⟨f, hf, howner⟩ := List.mem_filterMap.mp hu
      obtain ⟨o, ho⟩ := exists_of_mem_methods hf
      exact named_of_mem_owner h ho u howner
  | ofMemberPointer p => exact named_of_knows (h.types o _ ht u (List.mem_append_right _ hu))
  | _ => exact absurd hu List.not_mem_nil

theorem allowing_modelled : Allowing (fun _ => False) s (· ∈ s.modelled) where
  names := by
    intro t ht
    obtain ⟨o, ho⟩ := mem_modelled_iff.mp ht
    exact ⟨fun ty hty u hbase => named_of_knows (knownBases_uses h ho ty hty u hbase),
      named_of_mem_owners h ho⟩
  closed := by
    rintro t u - ⟨ty, -, o, -, hfound⟩
    exact mem_modelled_of_inlined? hfound

/-! ## Everything is printed -/

variable (hinlining : WellFounded fun u t => s.Inlines t u)
include hinlining

theorem fits_of_knownBases {tys : List TypeRef} (htys : s.KnownBases tys) :
    ∀ ty ∈ tys, Fits (fun _ => False) s s.writtenOut s.writtenOut ty := fun ty hty =>
  fits_writtenOut (allowing_modelled h) (fun o hbase => named_of_knows (htys ty hty o hbase))
    (fun _ _ _ hfound => mem_modelled_of_inlined? hfound) (.of_wellFounded hinlining ty)

theorem fitsAll_of_allKnown : FitsAll (fun _ => False) s s.writtenOut s.writtenOut := by
  constructor
  case types =>
      intro o t ht
      exact ⟨fits_of_knownBases h hinlining (knownBases_uses h ht), named_of_mem_owners h ht⟩
  case functions =>
      intro o f hf
      have hfits := fits_of_knownBases h hinlining (knownBases_functionRefs h hf)
      refine ⟨fun ty hty => hfits ty (signatureRefs_subset f hty), fun l hl => ?_,
        named_of_mem_owner h hf⟩
      exact hfits l.type (List.mem_append_right _ (List.mem_map_of_mem hl))
  case vars =>
      intro o v hv
      have hbase : s.KnownBases [v.type] := by
        intro ty hty u hbase
        rw [List.mem_singleton.mp hty] at hbase
        exact h.vars o v hv u (by rw [TypeRef.userOffset?, hbase]; rfl)
      exact fits_of_knownBases h hinlining hbase v.type List.mem_cons_self

end Known

/-- Where references lead somewhere and no type has to be written out inside itself,
everything can be shown, and writing types out does not depend on the depth. -/
theorem exists_render (s : Source) (hknown : s.program.AllKnown)
    (hinlining : WellFounded fun u t => s.Inlines t u) :
    (∀ target, ∃ code, s.render target = .ok code) ∧
      ∀ t ∈ s.modelled, ∀ indent ms,
        s.writtenOut.front indent t ms = s.writtenFront s.writtenOut indent t ms ∧
          s.writtenOut.back indent t ms = s.writtenBack s.writtenOut indent t ms := by
  constructor
  · intro target
    have hfits := fitsAll_of_allKnown hknown hinlining
    obtain ⟨tokens, htokens, -, -⟩ := (hfits.tokens target).exists_ok
    exact ⟨Code.ofTokens tokens, by rw [render, htokens]; rfl⟩
  · intro t ht indent ms
    exact writtenOut_eq (allowing_modelled hknown) ht ht (hinlining.apply t) indent ms

/-- A structure with public members and nothing else. -/
def plainStruct (offset : UInt32) (name : String) (members : List (String × TypeRef)) : UserType :=
  .ofClass
    { offset, kind := .structKind, name, byteSize := 8, bases := [], typedefs := [], functions := []
      members := members.map fun m =>
        { offset, name := m.1, type := m.2, access := .publicly, byteOffset := 0
          bitOffset := none, bitSize := none } }

/-- A pointer to the type at offset 1. -/
def toFirst : TypeRef :=
  { TypeRef.user 1 with modifiers := [⟨.pointer, false, false⟩] }

/-- A class called `node` that has a pointer to itself, and in it a class without a
name that has a pointer back. -/
def knot : Source where
  program :=
    { Program.empty (DebugInfo.assemble .big [] []) with
      types := ((∅ : Std.TreeMap UInt32 UserType).insert 1
          (plainStruct 1 "node" [("next", toFirst), ("box", .user 2)])).insert 2
        (plainStruct 2 "@box" [("back", toFirst)]) }
  settings := .default
  disassembly := none

theorem types_knot {o : UInt32} {t : UserType} (h : knot.program.types[o]? = some t) :
    o = 1 ∧ t = plainStruct 1 "node" [("next", toFirst), ("box", .user 2)] ∨
      o = 2 ∧ t = plainStruct 2 "@box" [("back", toFirst)] := by
  rw [knot, Std.TreeMap.getElem?_insert, Std.TreeMap.getElem?_insert, Std.TreeMap.getElem?_emptyc]
    at h
  split at h
  case isTrue hbox =>
      cases h
      exact .inr ⟨(Std.LawfulEqCmp.eq_of_compare hbox).symm, rfl⟩
  case isFalse =>
      split at h
      case isTrue hnode =>
          cases h
          exact .inl ⟨(Std.LawfulEqCmp.eq_of_compare hnode).symm, rfl⟩
      case isFalse => cases h

/-- Only the class without a name is written out, and nothing inside it is. -/
theorem inlines_knot {t u : UserType} (h : knot.Inlines t u) :
    u = plainStruct 2 "@box" [("back", toFirst)] ∧
      t ≠ plainStruct 2 "@box" [("back", toFirst)] := by
  obtain ⟨ty, hty, o, hbase, hfound⟩ := h
  have hnode : knot.inlined? 1 = .ok none := rfl
  rcases types_knot (getElem?_of_inlined? hfound) with ⟨rfl, -⟩ | ⟨rfl, hu⟩
  · rw [hnode] at hfound
    cases hfound
  · refine ⟨hu, ?_⟩
    rintro rfl
    obtain rfl := List.mem_singleton.mp hty
    cases hbase

theorem exists_render_knot : knot.program.AllKnown ∧ (WellFounded fun u t => knot.Inlines t u) ∧
    (∀ target, ∃ code, knot.render target = .ok code) ∧
      ∀ t ∈ knot.modelled, ∀ indent ms,
        knot.writtenOut.front indent t ms = knot.writtenFront knot.writtenOut indent t ms ∧
          knot.writtenOut.back indent t ms = knot.writtenBack knot.writtenOut indent t ms := by
  have hknown : knot.program.AllKnown := by
    have hone : (1 : UInt32) ∈ knot.program.types := rfl
    have htwo : (2 : UInt32) ∈ knot.program.types := rfl
    refine ⟨fun o t ht u hu => .inl ?_, fun o f hf => ?_, fun o v hv => ?_⟩
    · rcases types_knot ht with ⟨-, rfl⟩ | ⟨-, rfl⟩
      · rcases List.mem_cons.mp (show u ∈ [1, 2] from hu) with rfl | hu
        · exact hone
        · exact List.mem_singleton.mp hu ▸ htwo
      · exact List.mem_singleton.mp (show u ∈ [1] from hu) ▸ hone
    · cases hf
    · cases hv
  have hinlining : WellFounded fun u t => knot.Inlines t u := by
    let rank (t : UserType) : Nat := if t = plainStruct 2 "@box" [("back", toFirst)] then 0 else 1
    refine Subrelation.wf (fun {u t} h => ?_) (measure rank).wf
    obtain ⟨hu, ht⟩ := inlines_knot h
    show rank u < rank t
    simp [rank, hu, ht]
  exact ⟨hknown, hinlining, exists_render knot hknown hinlining⟩

end Source
end DwarfOne
