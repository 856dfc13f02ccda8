/-
# `Proofs.Record.Preorder` — the order of the records in a forest

In a forest everything below a record comes before the next record of the same list, and no
record is in two lists: `WellNested`.  A walk from the top then meets the records in the order in
which they are written.  Links in general do no more than lead forward, so this is shown along
the forest, with the places it takes.
-/
import DwarfOne.Proofs.Record.Nesting
import Mathlib.Logic.Relation

namespace DwarfOne

namespace DebugInfo

/-- The second record is the first or below it. -/
def Below (d : DebugInfo) : Nat → Nat → Prop :=
  Relation.ReflTransGen fun q c => c ∈ d.children q

/-- The records come in the order of a walk that meets each of them once. -/
structure WellNested (d : DebugInfo) : Prop where
  /-- A record with all that is below it comes before the next one in its list. -/
  before : ∀ q, (d.children q).Pairwise fun c c' => ∀ x, d.Below c x → x < c'
  parent_eq : ∀ q c, c ∈ d.children q → d.parent c = some q
  offset_lt : ∀ i j, i < j → j < d.records.size → (d.record i).offset < (d.record j).offset

/-- No two records start at one offset. -/
theorem WellNested.eq_of_offset_eq {d : DebugInfo} (h : d.WellNested) {i j : Nat}
    (hi : i < d.records.size) (hj : j < d.records.size)
    (hoffset : (d.record i).offset = (d.record j).offset) : i = j := by
  rcases Nat.lt_trichotomy i j with hlt | heq | hlt
  · have hoffsets := h.offset_lt i j hlt hj
    rw [hoffset] at hoffsets
    exact absurd hoffsets (UInt32.lt_irrefl _)
  · exact heq
  · have hoffsets := h.offset_lt j i hlt hi
    rw [hoffset] at hoffsets
    exact absurd hoffsets (UInt32.lt_irrefl _)

end DebugInfo

namespace Forest

section Order

variable {d : DebugInfo} (hd : d.WellLinked) {rows : Array Outline}
include hd

/-- What is below a record of a forest is in the forest. -/
theorem below_lt {f : Forest} {top : Bool} {i : Nat}
    (h : Linked rows d.sibling d.firstChild true top f i) {q x : Nat} (hq : i ≤ q)
    (hq' : q < i + f.count) (hx : d.Below q x) : q ≤ x ∧ x < i + f.count := by
  induction hx with
  | refl => exact ⟨Nat.le_refl q, hq'⟩
  | tail _ hchild ih =>
      have hlt := lt_of_mem_children hd hchild
      exact ⟨by omega, (mem_children hd h (by omega) ih.2 hchild).1⟩

theorem pairwise_places : ∀ {f : Forest} {top : Bool} {i : Nat},
    Linked rows d.sibling d.firstChild true top f i →
      (f.places i).Pairwise fun c c' => ∀ x, d.Below c x → x < c'
  | nil, _, _, _ => .nil
  | single x rest, top, i, h => by
      refine List.pairwise_cons.mpr ⟨fun c hc y hy => ?_, pairwise_places h.2.2.2⟩
      have hown : Linked rows d.sibling d.firstChild true top (single x nil) i :=
        ⟨h.1, h.2.1, h.2.2.1, trivial⟩
      have hbounds := mem_places hc
      have hbelow := below_lt hd hown (Nat.le_refl i) (Nat.lt_succ_self i) hy
      rw [add_count_single, count] at hbelow
      omega
  | node r children closing rest, top, i, h => by
      obtain ⟨hs, hfirst, hp, hs', hnone, hchildren, hrest⟩ := h
      refine List.pairwise_cons.mpr ⟨fun c hc y hy => ?_, pairwise_places hrest⟩
      -- the record with its list, by itself
      have hown : Linked rows d.sibling d.firstChild true top (node r children closing nil) i :=
        ⟨hs, hfirst, hp, hs', hnone, hchildren, trivial⟩
      have hbounds := mem_places hc
      have hbelow := below_lt hd hown (Nat.le_refl i)
        (by rw [add_count_node, count]; omega) hy
      rw [add_count_node, count] at hbelow
      omega

/-- A record of a forest has no children, or those of a forest that begins with it. -/
theorem children_cases : ∀ {f : Forest} {top : Bool} {i : Nat},
    Linked rows d.sibling d.firstChild true top f i → ∀ {q : Nat}, i ≤ q → q < i + f.count →
      d.children q = [] ∨ ∃ top r children closing,
        Linked rows d.sibling d.firstChild true top (node r children closing nil) q ∧
          d.children q = children.places (q + 1) ++ [q + children.count + 1]
  | nil, _, _, _, _, hq, hq' => absurd hq (Nat.not_le.mpr hq')
  | single x rest, top, i, ⟨_, _, hfirst, hrest⟩, q, hq, hq' => by
      rw [add_count_single] at hq'
      by_cases hown : q = i
      · exact .inl (by rw [hown, children_eq_nil hd hfirst])
      · exact children_cases hrest (by omega) hq'
  | node r children closing rest, top, i, ⟨hs, hfirst, hp, hs', hnone, hchildren, hrest⟩, q, hq,
      hq' => by
      rw [add_count_node] at hq'
      by_cases hbehind : i + children.count + 2 ≤ q
      · exact children_cases hrest hbehind hq'
      by_cases hown : q = i
      · subst hown
        exact .inr ⟨top, r, children, closing, ⟨hs, hfirst, hp, hs', hnone, hchildren, trivial⟩,
          children_eq hd hfirst hchildren hp hs'⟩
      by_cases hclosing : q = i + children.count + 1
      · exact .inl (by rw [hclosing, children_eq_nil hd hnone])
      · exact children_cases hchildren (by omega) (by omega)

theorem pairwise_children {f : Forest} {top : Bool} {i : Nat}
    (h : Linked rows d.sibling d.firstChild true top f i) {q : Nat} (hq : i ≤ q)
    (hq' : q < i + f.count) :
    (d.children q).Pairwise fun c c' => ∀ x, d.Below c x → x < c' := by
  rcases children_cases hd h hq hq' with hnone | ⟨_, _, children, _, hown, heq⟩
  · rw [hnone]
    exact .nil
  obtain ⟨-, -, -, -, -, hchildren, -⟩ := hown
  rw [heq]
  refine List.pairwise_append.mpr ⟨pairwise_places hd hchildren, List.pairwise_singleton _ _, ?_⟩
  intro c hc c' hc' x hx
  have hbounds := mem_places hc
  have hbelow := below_lt hd hchildren hbounds.1 hbounds.2 hx
  have hclosing := List.mem_singleton.mp hc'
  omega

/-- No record is in two child lists. -/
theorem parent_of_mem_children {f : Forest} {top : Bool} {i : Nat}
    (h : Linked rows d.sibling d.firstChild true top f i) {q c : Nat} (hq : i ≤ q)
    (hq' : q < i + f.count) (hc : c ∈ d.children q) : d.parent c = some q := by
  rcases children_cases hd h hq hq' with hnone | ⟨_, _, children, _, hown, heq⟩
  · rw [hnone] at hc
    exact absurd hc List.not_mem_nil
  · rw [heq] at hc
    exact parent_eq hd hown hc

end Order

end Forest

namespace DebugInfo

theorem offset_lt_assemble {order : ByteOrder} {rs : List RawRecord} {tables : List LineTable}
    {p : List UInt8} (ht : Tiles (RawRecord.Spans order) 0 p rs) (hp : p.length < 2 ^ 32)
    {i j : Nat} (hij : i < j) (hj : j < (assemble order rs tables).records.size) :
    ((assemble order rs tables).record i).offset <
      ((assemble order rs tables).record j).offset := by
  have hrecord : (assemble order rs tables).records[i]? = some _ :=
    Array.getElem?_eq_getElem (Nat.lt_trans hij hj)
  have hrecord' : (assemble order rs tables).records[j]? = some _ := Array.getElem?_eq_getElem hj
  obtain ⟨r, hr, hx⟩ := getElem?_records_eq_some_iff.mp hrecord
  obtain ⟨r', hr', hx'⟩ := getElem?_records_eq_some_iff.mp hrecord'
  rw [record_of_getElem? hrecord, record_of_getElem? hrecord', hx, hx', UInt32.lt_iff_toNat_lt]
  exact offset_lt_offset ht hp hr hr' hij

/-- What is written as a forest is read back with its records in order. -/
theorem wellNested_of_decode {order : ByteOrder} (f : Forest)
    (hsize : (Draft.encodeAll order (f.drafts 0)).length < 2 ^ 32) {line : Option (List UInt8)}
    {d : DebugInfo} (hd : decode order (Draft.encodeAll order (f.drafts 0)) line = .ok d) :
    d.WellNested := by
  obtain ⟨rs, tables, hrs, -, rfl⟩ := decode_eq_ok_iff.mp hd
  cases (Draft.readAll_encodeAll order (f.drafts 0)).symm.trans hrs
  have hbytes : f.size < 2 ^ 32 := by rwa [Draft.length_encodeAll, Forest.sizeAll_drafts] at hsize
  have hlinks := @wellLinked_assemble order (Draft.placeAll (f.drafts 0)) tables
  have hlinked := Forest.linked_assemble hbytes order tables
  have hlt {q c : Nat}
      (hc : c ∈ (assemble order (Draft.placeAll (f.drafts 0)) tables).children q) :
      q < f.count := by
    have hlt := (Forest.lt_of_mem_children hlinks hc).2
    rwa [size_records_assemble, Draft.placeAll, length_placeFrom, Forest.length_drafts] at hlt
  constructor
  case before =>
      intro q
      by_cases hq : q < f.count
      · exact Forest.pairwise_children hlinks hlinked (Nat.zero_le q) (by omega)
      · rw [List.eq_nil_iff_forall_not_mem.mpr fun c hc => hq (hlt hc)]
        exact .nil
  case parent_eq =>
      intro q c hc
      have hq := hlt hc
      exact Forest.parent_of_mem_children hlinks hlinked (Nat.zero_le q) (by omega) hc
  case offset_lt =>
      intro i j hij hj
      exact offset_lt_assemble (Draft.tiles_placeAll order _) hsize hij hj

end DebugInfo

end DwarfOne
