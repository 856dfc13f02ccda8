/-
# `Proofs.Record.Links` — links on every input

A sibling attribute can hold any offset, so nothing is known of the records
when they are linked.  What carries the proofs is that `own` and `bridge` only
make links that point forward; the rest is said of such links in
`Proofs.Record.Walk`.
-/
import DwarfOne.Proofs.Record.Assembly
import DwarfOne.Proofs.Record.Walk

namespace DwarfOne
namespace Links

/-! ## Links made -/

section Own

variable {rows : Array Outline} {find : UInt32 → Option Nat} {i : Nat}

theorem own_of_padding {row : Outline} (hrow : rows[i]? = some row) (hp : row.isPadding = true) :
    own rows find i = (none, none) := by
  unfold own
  rw [hrow]
  cases rows[i + 1]? with
  | none => rfl
  | some next => simp [hp]

theorem own_of_last (h : rows[i + 1]? = none) : own rows find i = (none, none) := by
  unfold own
  rw [h]
  cases rows[i]? with
  | none => rfl
  | some row => rfl

theorem own_of_target {row next : Outline} (hrow : rows[i]? = some row)
    (hnext : rows[i + 1]? = some next) (hp : row.isPadding = false) {target : UInt32}
    (ht : row.target = some target) :
    own rows find i =
      if target = next.offset then (some (i + 1), none)
      else ((find target).filter (i + 1 < ·), some (i + 1)) := by
  simp [own, hrow, hnext, hp, ht]

/-- Everything `own` can give. -/
theorem own_cases (rows : Array Outline) (find : UInt32 → Option Nat) (i : Nat) :
    own rows find i = (none, none) ∨
      i + 1 < rows.size ∧ (∃ row, rows[i]? = some row ∧ row.isPadding = false) ∧
        (own rows find i = (some (i + 1), none) ∨
          ∃ target, own rows find i = ((find target).filter (i + 1 < ·), some (i + 1))) := by
  cases hnext : rows[i + 1]? with
  | none => exact .inl (own_of_last hnext)
  | some next =>
      obtain ⟨hlt, -⟩ := Array.getElem?_eq_some_iff.mp hnext
      obtain ⟨row, hrow⟩ : ∃ row, rows[i]? = some row := ⟨_, Array.getElem?_eq_getElem (by omega)⟩
      cases hp : row.isPadding with
      | true => exact .inl (own_of_padding hrow hp)
      | false =>
          cases ht : row.target with
          | none => exact .inl (by simp [own, hrow, hnext, hp, ht])
          | some target =>
              refine .inr ⟨hlt, ⟨row, hrow, hp⟩, ?_⟩
              rw [own_of_target hrow hnext hp ht]
              split
              · exact .inl rfl
              · exact .inr ⟨target, rfl⟩

theorem own_fst_forward (hfind : ∀ o j, find o = some j → j < rows.size) {s : Nat}
    (h : (own rows find i).1 = some s) : i < s ∧ s < rows.size := by
  rcases own_cases rows find i with hown | ⟨hlt, -, hown | ⟨target, hown⟩⟩
  · rw [hown] at h
    cases h
  · rw [hown] at h
    cases h
    exact ⟨Nat.lt_succ_self i, hlt⟩
  · rw [hown] at h
    obtain ⟨hs, hlt'⟩ := Option.filter_eq_some_iff.mp h
    have hle : i + 1 < s := of_decide_eq_true hlt'
    exact ⟨by omega, hfind target s hs⟩

theorem own_snd_eq_some {c : Nat} (h : (own rows find i).2 = some c) :
    c = i + 1 ∧ c < rows.size ∧ ∃ row, rows[i]? = some row ∧ row.isPadding = false := by
  rcases own_cases rows find i with hown | ⟨hlt, hrow, hown | ⟨target, hown⟩⟩
  · rw [hown] at h
    cases h
  · rw [hown] at h
    cases h
  · rw [hown] at h
    cases h
    exact ⟨rfl, hlt, hrow⟩

end Own

/-- Links are as they were, or lead to the very next place. -/
structure Extends (s s' : Array (Option Nat)) : Prop where
  size_eq : s'.size = s.size
  link : ∀ i, s'.getD i none = s.getD i none ∨ s'.getD i none = some (i + 1) ∧ i + 1 < s.size

namespace Extends

theorem refl (s : Array (Option Nat)) : Extends s s :=
  ⟨rfl, fun _ => .inl rfl⟩

theorem trans {s s' s'' : Array (Option Nat)} (h : Extends s s') (h' : Extends s' s'') :
    Extends s s'' := by
  refine ⟨h'.size_eq.trans h.size_eq, fun i => ?_⟩
  cases h'.link i with
  | inl heq => rw [heq]; exact h.link i
  | inr hnew => exact .inr (by rwa [h.size_eq] at hnew)

theorem forward {s s' : Array (Option Nat)} (h : Extends s s') (hs : Forward s) :
    Forward s' := by
  intro i t ht
  rw [h.size_eq]
  cases h.link i with
  | inl heq => exact hs i t (heq ▸ ht)
  | inr hnew =>
      rw [hnew.1] at ht
      cases ht
      exact ⟨Nat.lt_succ_self i, hnew.2⟩

end Extends

theorem extends_bridge {rows : Array Outline} {afterOwner : Option Nat} :
    ∀ (fuel : Nat) (s : Array (Option Nat)) (start : Option Nat), s.size = rows.size →
      Extends s (bridge rows afterOwner fuel s start)
  | 0, s, _, _ => .refl s
  | _ + 1, s, none, _ => .refl s
  | fuel + 1, s, some c, hsize => by
      rw [bridge]
      split
      case isTrue hlink =>
          refine Extends.trans ⟨Array.size_setIfInBounds, fun i => ?_⟩
            (extends_bridge fuel _ _ (by rw [Array.size_setIfInBounds, hsize]))
          rw [getD_setIfInBounds]
          split
          case isTrue hi =>
              rw [← hi.1]
              exact .inr ⟨rfl, hsize ▸ hlink.2.2.1⟩
          case isFalse => exact .inl rfl
      case isFalse => exact extends_bridge fuel s _ hsize

/-- One round of `bridgeAll`. -/
def bridgeStep (rows : Array Outline) (firstChild sibling : Array (Option Nat)) (i : Nat) :
    Array (Option Nat) :=
  bridge rows (sibling.getD i none) rows.size sibling (firstChild.getD i none)

theorem bridgeAll_eq (rows : Array Outline) (firstChild sibling : Array (Option Nat)) :
    bridgeAll rows firstChild sibling =
      (List.range (rows.size - 1)).foldl (bridgeStep rows firstChild) sibling :=
  rfl

theorem extends_foldl_bridgeStep {rows : Array Outline} {firstChild : Array (Option Nat)} :
    ∀ (l : List Nat) (s : Array (Option Nat)), s.size = rows.size →
      Extends s (l.foldl (bridgeStep rows firstChild) s)
  | [], s, _ => .refl s
  | i :: l, s, hsize => by
      have hstep : Extends s (bridgeStep rows firstChild s i) := extends_bridge _ _ _ hsize
      exact hstep.trans (extends_foldl_bridgeStep l _ (hstep.size_eq.trans hsize))

section OfOutlines

variable (rows : Array Outline) (find : UInt32 → Option Nat)

/-- The siblings before padding is bridged. -/
def ownSiblings : Array (Option Nat) :=
  ((Array.range rows.size).map (own rows find)).map Prod.fst

theorem size_ownSiblings : (ownSiblings rows find).size = rows.size := by
  simp [ownSiblings]

theorem own_of_le {i : Nat} (h : rows.size ≤ i) : own rows find i = (none, none) :=
  own_of_last (Array.getElem?_eq_none (by omega))

theorem getD_map_own (f : Option Nat × Option Nat → Option Nat) (hf : f (none, none) = none)
    (i : Nat) :
    (((Array.range rows.size).map (own rows find)).map f).getD i none = f (own rows find i) := by
  rw [Array.getD_eq_getD_getElem?]
  by_cases h : i < rows.size
  · simp [h]
  · rw [own_of_le rows find (Nat.le_of_not_lt h), hf, Array.getElem?_eq_none (by simpa using h)]
    rfl

theorem getD_ownSiblings (i : Nat) :
    (ownSiblings rows find).getD i none = (own rows find i).1 :=
  getD_map_own rows find Prod.fst rfl i

theorem getD_firstChild (i : Nat) :
    (ofOutlines rows find).firstChild.getD i none = (own rows find i).2 :=
  getD_map_own rows find Prod.snd rfl i

theorem sibling_ofOutlines : (ofOutlines rows find).sibling =
    bridgeAll rows (ofOutlines rows find).firstChild (ownSiblings rows find) :=
  rfl

theorem extends_ownSiblings : Extends (ownSiblings rows find) (ofOutlines rows find).sibling := by
  rw [sibling_ofOutlines, bridgeAll_eq]
  exact extends_foldl_bridgeStep _ _ (size_ownSiblings rows find)

theorem size_sibling : (ofOutlines rows find).sibling.size = rows.size := by
  rw [(extends_ownSiblings rows find).size_eq, size_ownSiblings]

theorem size_firstChild : (ofOutlines rows find).firstChild.size = rows.size := by
  simp [ofOutlines]

variable {rows find}

theorem forward_sibling (hfind : ∀ o j, find o = some j → j < rows.size) :
    Forward (ofOutlines rows find).sibling := by
  refine (extends_ownSiblings rows find).forward fun i s hs => ?_
  rw [getD_ownSiblings] at hs
  rw [size_ownSiblings]
  exact own_fst_forward hfind hs

theorem firstChild_lt_size {i c : Nat}
    (h : (ofOutlines rows find).firstChild.getD i none = some c) :
    c < (ofOutlines rows find).sibling.size := by
  rw [getD_firstChild] at h
  rw [size_sibling]
  exact (own_snd_eq_some h).2.1

theorem childCount_ofOutlines : (ofOutlines rows find).childCount =
    (ofOutlines rows find).firstChild.map (listCount (counts (ofOutlines rows find).sibling)) :=
  rfl

theorem getD_childCount (hfind : ∀ o j, find o = some j → j < rows.size) (i : Nat) :
    (ofOutlines rows find).childCount.getD i 0 =
      (chain (ofOutlines rows find).sibling
        ((ofOutlines rows find).firstChild.getD i none)).length := by
  have hforward := forward_sibling hfind
  rw [childCount_ofOutlines,
    ← listCount_eq_length hforward (walk_chain hforward fun _ => firstChild_lt_size)]
  exact getD_map (listCount _) _ i none

end OfOutlines

end Links

/-! ## The links of a section -/

/-- What linking has to know of a record as it was read. -/
def RawRecord.outline (r : RawRecord) : Outline where
  offset := r.offset
  isPadding := r.length < 8 || r.tag = .padding
  target := DebugInfo.siblingTarget r.attributes

namespace DebugInfo

open Links

/-- What holds of the links of a section, whatever is in it. -/
structure WellLinked (d : DebugInfo) : Prop where
  firstChild_eq : ∀ i c, d.firstChild i = some c →
    c = i + 1 ∧ c < d.records.size ∧ (d.record i).isPadding = false
  sibling_lt : ∀ i s, d.sibling i = some s → i < s ∧ s < d.records.size
  last : ∀ i, i + 1 = d.records.size → d.firstChild i = none ∧ d.sibling i = none
  /-- Following siblings ends, after as many records as are counted. -/
  siblings : ∀ i, ∃ l, Walk d.sibling (d.sibling i) l ∧ d.siblingCount i = l.length
  children : ∀ i, Walk d.sibling (d.firstChild i) (d.children i) ∧
    d.childCount i = (d.children i).length
  parent_eq_some_iff : ∀ c p, d.parent c = some p ↔
    c ∈ d.children p ∧ ∀ q, c ∈ d.children q → q ≤ p
  parent_eq_none_iff : ∀ c, d.parent c = none ↔ ∀ q, c ∉ d.children q

theorem WellLinked.lt_size_of_mem_children {d : DebugInfo} (h : d.WellLinked) {i c : Nat}
    (hc : c ∈ d.children i) : c < d.records.size :=
  (h.children i).1.forall_mem (fun j s _ hs => (h.sibling_lt j s hs).2)
    (fun j hj => (h.firstChild_eq i j hj).2.1) c hc

section Assemble

variable (order : ByteOrder) (rs : List RawRecord) (tables : List LineTable)

/-- The outlines that the records of a list are linked by. -/
def rows : Array Outline :=
  (layFrom 0 rs).toArray.map (outline (arena rs).toArray)

/-- The place of the record at an offset. -/
def placeAt (o : UInt32) : Option Nat :=
  (placesOf (layFrom 0 rs).toArray)[o]?

theorem links_assemble : (assemble order rs tables).links = ofOutlines (rows rs) (placeAt rs) :=
  rfl

theorem size_rows : (rows rs).size = rs.length := by
  simp [rows, length_layFrom]

theorem getElem?_rows (i : Nat) : (rows rs)[i]? = rs[i]?.map RawRecord.outline := by
  rw [rows, Array.getElem?_map, List.getElem?_toArray, getElem?_layFrom]
  cases hr : rs[i]? with
  | none => rfl
  | some r =>
      simp only [Option.map_some, outline, Nat.zero_add, extract_arena hr]
      rfl

variable {rs}

theorem lt_size_rows {o : UInt32} {j : Nat} (h : placeAt rs o = some j) : j < (rows rs).size := by
  obtain ⟨⟨r, hr, -⟩, -⟩ := getElem?_placesOf_eq_some_iff.mp h
  rw [size_rows, ← length_layFrom 0 rs]
  exact (List.getElem?_eq_some_iff.mp hr).1

theorem isPadding_record {i : Nat} {row : Outline} (h : (rows rs)[i]? = some row) :
    ((assemble order rs tables).record i).isPadding = row.isPadding := by
  rw [getElem?_rows] at h
  obtain ⟨r, hr, rfl⟩ := Option.map_eq_some_iff.mp h
  have hrecord := @getElem?_records_assemble order rs tables i
  rw [hr, Option.map_some] at hrecord
  rw [record_of_getElem? hrecord]
  rfl

theorem firstChild_assemble {i c : Nat} (h : (assemble order rs tables).firstChild i = some c) :
    c = i + 1 ∧ c < rs.length ∧ ((assemble order rs tables).record i).isPadding = false := by
  obtain ⟨hnext, hlt, row, hrow, hpadding⟩ :=
    own_snd_eq_some ((getD_firstChild (rows rs) (placeAt rs) i).symm.trans h)
  rw [size_rows] at hlt
  exact ⟨hnext, hlt, (isPadding_record order tables hrow).trans hpadding⟩

theorem forward_assemble : Forward (assemble order rs tables).links.sibling :=
  forward_sibling fun _ _ => lt_size_rows

theorem size_sibling_assemble : (assemble order rs tables).links.sibling.size = rs.length := by
  rw [links_assemble, size_sibling, size_rows]

theorem sibling_assemble {i s : Nat} (h : (assemble order rs tables).sibling i = some s) :
    i < s ∧ s < rs.length := by
  rw [← size_sibling_assemble order tables]
  exact forward_assemble order tables i s h

theorem wellLinked_assemble : (assemble order rs tables).WellLinked := by
  have hforward := @forward_assemble order rs tables
  have hfirst : ∀ i c, (assemble order rs tables).links.firstChild.getD i none = some c →
      c < (assemble order rs tables).links.sibling.size := fun _ _ => firstChild_lt_size
  have hsize : (assemble order rs tables).links.firstChild.size =
      (assemble order rs tables).links.sibling.size := by
    rw [links_assemble, size_firstChild, size_sibling]
  constructor
  case firstChild_eq =>
      rw [size_records_assemble]
      exact fun _ _ => firstChild_assemble order tables
  case sibling_lt =>
      rw [size_records_assemble]
      exact fun _ _ => sibling_assemble order tables
  case last =>
      intro i hi
      rw [size_records_assemble] at hi
      refine ⟨Option.eq_none_iff_forall_ne_some.mpr fun c hc => ?_,
        Option.eq_none_iff_forall_ne_some.mpr fun s hs => ?_⟩
      · have hlt := firstChild_assemble order tables hc
        omega
      · have hlt := sibling_assemble order tables hs
        omega
  case siblings =>
      intro i
      have hwalk := walk_chain hforward fun s hs => (hforward i s hs).2
      exact ⟨_, hwalk, counts_eq_length hforward hwalk⟩
  case children =>
      exact fun i => ⟨walk_chain hforward (hfirst i), getD_childCount (fun _ _ => lt_size_rows) i⟩
  case parent_eq_some_iff => exact fun _ _ => getD_parents_eq_some_iff hforward hsize hfirst
  case parent_eq_none_iff => exact fun _ => getD_parents_eq_none_iff hforward hsize hfirst

end Assemble

/-- Links point forward and end, counts are lengths of walks and a parent is the
last owner, however the section came about. -/
theorem wellLinked_of_decode {order : ByteOrder} {bytes : List UInt8} {line : Option (List UInt8)}
    {d : DebugInfo} (h : decode order bytes line = .ok d) : d.WellLinked := by
  obtain ⟨rs, tables, -, -, rfl⟩ := decode_eq_ok_iff.mp h
  exact wellLinked_assemble order tables

/-- A record whose sibling attribute points back at itself, and a null record. -/
def selfLinked : List UInt8 :=
  [12, 0, 0, 0, 7, 0, 0x12, 0, 0, 0, 0, 0, 4, 0, 0, 0]

theorem wellLinked_selfLinked :
    ∃ d, decode .little selfLinked none = .ok d ∧ d.WellLinked := by
  obtain ⟨d, hd⟩ : ∃ d, decode .little selfLinked none = .ok d := ⟨_, rfl⟩
  exact ⟨d, hd, wellLinked_of_decode hd⟩

end DebugInfo
end DwarfOne
