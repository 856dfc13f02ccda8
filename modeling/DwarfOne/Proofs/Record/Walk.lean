/-
# `Proofs.Record.Walk` — following links

What there is to know of links that only point forward, whoever made them.
Following them ends, the fuel of `chain` is enough, counts filled in from the
back are the lengths of the walks, and the parent that is left standing is the
last place whose child list another is in.
-/
import DwarfOne.Record.Links

namespace DwarfOne
namespace Links

/-! ## Arrays of links -/

theorem getD_of_le {α : Type} {a : Array α} {i : Nat} (h : a.size ≤ i) (d : α) :
    a.getD i d = d := by
  rw [Array.getD_eq_getD_getElem?, Array.getElem?_eq_none h, Option.getD_none]

theorem getD_replicate {α : Type} (n i : Nat) (d : α) : (Array.replicate n d).getD i d = d := by
  rw [Array.getD_eq_getD_getElem?, Array.getElem?_replicate]
  split
  · rfl
  · rfl

theorem getD_map {α β : Type} (f : α → β) (a : Array α) (i : Nat) (d : α) :
    (a.map f).getD i (f d) = f (a.getD i d) := by
  rw [Array.getD_eq_getD_getElem?, Array.getD_eq_getD_getElem?, Array.getElem?_map,
    Option.getD_map]

theorem getD_setIfInBounds {α : Type} (a : Array α) (i j : Nat) (v d : α) :
    (a.setIfInBounds i v).getD j d = if i = j ∧ j < a.size then v else a.getD j d := by
  simp only [Array.getD_eq_getD_getElem?, Array.getElem?_setIfInBounds]
  by_cases hij : i = j
  · subst hij
    by_cases hi : i < a.size
    · simp [hi]
    · simp [hi]
  · simp [hij]

/-- What is left of a value written at every place of a list. -/
theorem getD_foldl_setIfInBounds {α : Type} (v d : α) (j : Nat) :
    ∀ (l : List Nat) (a : Array α),
      (l.foldl (fun a c => a.setIfInBounds c v) a).getD j d =
        if j ∈ l ∧ j < a.size then v else a.getD j d
  | [], a => by simp
  | c :: l, a => by
      rw [List.foldl_cons, getD_foldl_setIfInBounds v d j l, Array.size_setIfInBounds,
        getD_setIfInBounds]
      grind

theorem size_foldl_setIfInBounds {α : Type} (v : α) :
    ∀ (l : List Nat) (a : Array α), (l.foldl (fun a c => a.setIfInBounds c v) a).size = a.size
  | [], _ => rfl
  | c :: l, a => by
      rw [List.foldl_cons, size_foldl_setIfInBounds v l, Array.size_setIfInBounds]

/-! ## Walks -/

/-- The places met from a start by following links to their end. -/
inductive Walk (next : Nat → Option Nat) : Option Nat → List Nat → Prop
  | done : Walk next none []
  | step {i : Nat} {l : List Nat} : Walk next (next i) l → Walk next (some i) (i :: l)

theorem Walk.unique {next : Nat → Option Nat} {start : Option Nat} {l : List Nat}
    (h : Walk next start l) : ∀ {l' : List Nat}, Walk next start l' → l' = l := by
  induction h with
  | done =>
      intro l' h'
      cases h'
      rfl
  | step _ ih =>
      intro l' h'
      cases h' with
      | step h' => rw [ih h']

/-- What links keep holds of every place met. -/
theorem Walk.forall_mem {next : Nat → Option Nat} {P : Nat → Prop} {start : Option Nat}
    {l : List Nat} (hw : Walk next start l) (hnext : ∀ i s, P i → next i = some s → P s)
    (hstart : ∀ i, start = some i → P i) : ∀ c ∈ l, P c := by
  induction hw with
  | done =>
      intro c hc
      cases hc
  | @step i l _ ih =>
      intro c hc
      have hi := hstart i rfl
      cases List.mem_cons.mp hc with
      | inl heq => rwa [heq]
      | inr hmem => exact ih (fun s => hnext i s hi) c hmem

/-- Every link points at a later place. -/
def Forward (next : Array (Option Nat)) : Prop :=
  ∀ i s, next.getD i none = some s → i < s ∧ s < next.size

section Forward

variable {next : Array (Option Nat)}

/-- Forward links are followed to their end if there is fuel for every place
from the start on. -/
theorem walk_follow (h : Forward next) : ∀ (fuel : Nat) (start : Option Nat),
    (∀ i, start = some i → i < next.size ∧ next.size ≤ i + fuel) →
      Walk (next.getD · none) start (follow next fuel start)
  | 0, none, _ => .done
  | _ + 1, none, _ => .done
  | 0, some i, hstart => by
      have hi := hstart i rfl
      omega
  | fuel + 1, some i, hstart => by
      refine .step (walk_follow h fuel _ fun s hs => ?_)
      have hi := hstart i rfl
      have hforward := h i s hs
      omega

theorem walk_chain (h : Forward next) {start : Option Nat}
    (hstart : ∀ i, start = some i → i < next.size) :
    Walk (next.getD · none) start (chain next start) :=
  walk_follow h _ _ fun i hi => ⟨hstart i hi, Nat.le_add_left _ _⟩

end Forward

/-! ## Counts, filled in from the back -/

/-- One round of `counts`. -/
def countStep (sibling : Array (Option Nat)) (i : Nat) (counts : Array Nat) : Array Nat :=
  match sibling.getD i none with
  | some s => counts.setIfInBounds i (1 + counts.getD s 0)
  | none => counts

theorem counts_eq (sibling : Array (Option Nat)) :
    counts sibling =
      (List.range sibling.size).foldr (countStep sibling) (Array.replicate sibling.size 0) :=
  rfl

/-- The counts are right from place `k` on and still zero before it. -/
structure CountedFrom (sibling : Array (Option Nat)) (k : Nat) (counts : Array Nat) : Prop where
  size_eq : counts.size = sibling.size
  before : ∀ i, i < k → counts.getD i 0 = 0
  after : ∀ i l, k ≤ i → Walk (sibling.getD · none) (sibling.getD i none) l →
    counts.getD i 0 = l.length

theorem CountedFrom.step {sibling : Array (Option Nat)} (h : Forward sibling) {k : Nat}
    (hk : k < sibling.size) {counts : Array Nat} (hc : CountedFrom sibling (k + 1) counts) :
    CountedFrom sibling k (countStep sibling k counts) := by
  unfold countStep
  cases hnext : sibling.getD k none with
  | none =>
      refine ⟨hc.size_eq, fun i hi => hc.before i (by omega), fun i l hi hw => ?_⟩
      by_cases heq : k = i
      · subst heq
        rw [hnext] at hw
        cases hw
        exact hc.before k (Nat.lt_succ_self k)
      · exact hc.after i l (by omega) hw
  | some s =>
      have hs := h k s hnext
      refine ⟨by rw [Array.size_setIfInBounds, hc.size_eq], fun i hi => ?_, fun i l hi hw => ?_⟩
      · rw [getD_setIfInBounds, if_neg (by omega)]
        exact hc.before i (by omega)
      · by_cases heq : k = i
        · subst heq
          rw [hnext] at hw
          cases hw with
          | step hw =>
              rw [getD_setIfInBounds, if_pos ⟨rfl, by rwa [hc.size_eq]⟩,
                hc.after s _ (by omega) hw, List.length_cons, Nat.add_comm]
        · rw [getD_setIfInBounds, if_neg (by omega)]
          exact hc.after i l (by omega) hw

theorem countedFrom_foldr {sibling : Array (Option Nat)} (h : Forward sibling) :
    ∀ (m k : Nat), k + m = sibling.size →
      CountedFrom sibling k
        ((List.range' k m).foldr (countStep sibling) (Array.replicate sibling.size 0))
  | 0, k, hk => by
      refine ⟨Array.size_replicate, fun i _ => getD_replicate _ _ _, fun i l hi hw => ?_⟩
      rw [getD_of_le (by omega)] at hw
      cases hw
      exact getD_replicate _ _ _
  | m + 1, k, hk => by
      rw [List.range'_succ, List.foldr_cons]
      exact (countedFrom_foldr h m (k + 1) (by omega)).step h (by omega)

theorem counts_eq_length {sibling : Array (Option Nat)} (h : Forward sibling) {i : Nat}
    {l : List Nat} (hw : Walk (sibling.getD · none) (sibling.getD i none) l) :
    (counts sibling).getD i 0 = l.length := by
  have hcounted := countedFrom_foldr h sibling.size 0 (Nat.zero_add _)
  rw [← List.range_eq_range', ← counts_eq] at hcounted
  exact hcounted.after i l (Nat.zero_le _) hw

/-- How many records a list has, by its first one. -/
def listCount (siblingCount : Array Nat) : Option Nat → Nat
  | some c => 1 + siblingCount.getD c 0
  | none => 0

theorem listCount_eq_length {sibling : Array (Option Nat)} (h : Forward sibling)
    {start : Option Nat} {l : List Nat} (hw : Walk (sibling.getD · none) start l) :
    listCount (counts sibling) start = l.length := by
  cases hw with
  | done => rfl
  | step htail => rw [listCount, counts_eq_length h htail, List.length_cons, Nat.add_comm]

/-! ## Parents, the last one standing -/

section Parents

variable {firstChild sibling : Array (Option Nat)}

/-- One round of `parents`. -/
def parentStep (firstChild sibling parent : Array (Option Nat)) (i : Nat) : Array (Option Nat) :=
  (chain sibling (firstChild.getD i none)).foldl
    (fun parent c => parent.setIfInBounds c (some i)) parent

theorem parents_eq (firstChild sibling : Array (Option Nat)) :
    parents firstChild sibling =
      (List.range sibling.size).foldl (parentStep firstChild sibling)
        (Array.replicate sibling.size none) :=
  rfl

/-- Of the places below `m` whose child list has `c`, `p` is the last. -/
def IsLastOwner (firstChild sibling : Array (Option Nat)) (m c p : Nat) : Prop :=
  p < m ∧ c ∈ chain sibling (firstChild.getD p none) ∧
    ∀ q, q < m → c ∈ chain sibling (firstChild.getD q none) → q ≤ p

theorem isLastOwner_succ_iff {m c p : Nat} :
    IsLastOwner firstChild sibling (m + 1) c p ↔
      if c ∈ chain sibling (firstChild.getD m none) then p = m
      else IsLastOwner firstChild sibling m c p := by
  split
  case isTrue hc =>
      constructor
      · rintro ⟨hp, -, hlast⟩
        have hle := hlast m (Nat.lt_succ_self m) hc
        omega
      · rintro rfl
        exact ⟨Nat.lt_succ_self p, hc, fun q hq _ => Nat.le_of_lt_succ hq⟩
  case isFalse hc =>
      constructor
      · rintro ⟨hp, hmem, hlast⟩
        have hne : p ≠ m := by
          rintro rfl
          exact hc hmem
        exact ⟨by omega, hmem, fun q hq => hlast q (by omega)⟩
      · rintro ⟨hp, hmem, hlast⟩
        refine ⟨by omega, hmem, fun q hq hqc => ?_⟩
        have hne : q ≠ m := by
          rintro rfl
          exact hc hqc
        exact hlast q (by omega) hqc

theorem exists_isLastOwner {c : Nat} : ∀ m q : Nat, q < m →
    c ∈ chain sibling (firstChild.getD q none) → ∃ p, IsLastOwner firstChild sibling m c p
  | 0, _, hq, _ => absurd hq (Nat.not_lt_zero _)
  | m + 1, q, hq, hmem => by
      by_cases hm : c ∈ chain sibling (firstChild.getD m none)
      · exact ⟨m, isLastOwner_succ_iff.mpr (by rw [if_pos hm])⟩
      · have hne : q ≠ m := by
          rintro rfl
          exact hm hmem
        obtain ⟨p, hp⟩ := exists_isLastOwner m q (by omega) hmem
        exact ⟨p, isLastOwner_succ_iff.mpr (by rwa [if_neg hm])⟩

theorem foldl_parentStep (firstChild sibling : Array (Option Nat)) : ∀ m : Nat,
    ((List.range m).foldl (parentStep firstChild sibling)
      (Array.replicate sibling.size none)).size = sibling.size ∧
    ∀ c p, c < sibling.size →
      (((List.range m).foldl (parentStep firstChild sibling)
        (Array.replicate sibling.size none)).getD c none = some p ↔
          IsLastOwner firstChild sibling m c p)
  | 0 => by
      refine ⟨Array.size_replicate, fun c p _ => ?_⟩
      rw [List.range_zero, List.foldl_nil, getD_replicate]
      exact ⟨nofun, fun h => absurd h.1 (Nat.not_lt_zero _)⟩
  | m + 1 => by
      obtain ⟨hsize, hlast⟩ := foldl_parentStep firstChild sibling m
      rw [List.range_succ, List.foldl_append, List.foldl_cons, List.foldl_nil, parentStep,
        size_foldl_setIfInBounds]
      refine ⟨hsize, fun c p hc => ?_⟩
      rw [getD_foldl_setIfInBounds, hsize, isLastOwner_succ_iff]
      by_cases hmem : c ∈ chain sibling (firstChild.getD m none)
      · rw [if_pos ⟨hmem, hc⟩, if_pos hmem, Option.some.injEq, eq_comm]
      · rw [if_neg fun h => hmem h.1, if_neg hmem]
        exact hlast c p hc

theorem chain_none (next : Array (Option Nat)) : chain next none = [] := by
  unfold chain
  cases next.size with
  | zero => rfl
  | succ n => rfl

variable (h : Forward sibling) (hsize : firstChild.size = sibling.size)
  (hfirst : ∀ i c, firstChild.getD i none = some c → c < sibling.size)
include h hsize hfirst

theorem lt_size_of_mem_chain {c q : Nat} (hc : c ∈ chain sibling (firstChild.getD q none)) :
    q < sibling.size ∧ c < sibling.size := by
  refine ⟨Nat.lt_of_not_le fun hle => ?_,
    (walk_chain h (hfirst q)).forall_mem (fun i s _ hs => (h i s hs).2) (hfirst q) c hc⟩
  rw [getD_of_le (by omega), chain_none] at hc
  cases hc

/-- The parent of a place is the last one whose child list it is in. -/
theorem getD_parents_eq_some_iff {c p : Nat} :
    (parents firstChild sibling).getD c none = some p ↔
      c ∈ chain sibling (firstChild.getD p none) ∧
        ∀ q, c ∈ chain sibling (firstChild.getD q none) → q ≤ p := by
  obtain ⟨hsizeP, hlast⟩ := foldl_parentStep firstChild sibling sibling.size
  rw [← parents_eq] at hsizeP hlast
  constructor
  · intro hp
    have hc : c < sibling.size := by
      refine Nat.lt_of_not_le fun hle => ?_
      rw [getD_of_le (by omega)] at hp
      cases hp
    obtain ⟨-, hmem, hmax⟩ := (hlast c p hc).mp hp
    exact ⟨hmem, fun q hq => hmax q (lt_size_of_mem_chain h hsize hfirst hq).1 hq⟩
  · rintro ⟨hmem, hmax⟩
    have hp := lt_size_of_mem_chain h hsize hfirst hmem
    exact (hlast c p hp.2).mpr ⟨hp.1, hmem, fun q _ hq => hmax q hq⟩

theorem getD_parents_eq_none_iff {c : Nat} :
    (parents firstChild sibling).getD c none = none ↔
      ∀ q, c ∉ chain sibling (firstChild.getD q none) := by
  constructor
  · intro hnone q hmem
    obtain ⟨p, hp⟩ := exists_isLastOwner _ q (lt_size_of_mem_chain h hsize hfirst hmem).1 hmem
    have hsome := (getD_parents_eq_some_iff h hsize hfirst).mpr
      ⟨hp.2.1, fun q hq => hp.2.2 q (lt_size_of_mem_chain h hsize hfirst hq).1 hq⟩
    rw [hnone] at hsome
    cases hsome
  · intro hno
    cases hp : (parents firstChild sibling).getD c none with
    | none => rfl
    | some p => exact absurd ((getD_parents_eq_some_iff h hsize hfirst).mp hp).1 (hno p)

end Parents

end Links
end DwarfOne
