/-
# `Proofs.Record.Forest` — nested records and the links between them

A forest is a list of records each of which may have a list of its own, with
padding anywhere between.  Written out in order, a forest at place `i` of the
section takes the places from `i` on, and the links of every record in it are
known: `Linked`.  Two marks say how far linking has come, for padding gets its
link only when the list it is in has been bridged.

`bridge` completes the list it follows and `bridgeAll` all lists of a forest,
by induction on it.  Along complete links a walk meets just the places of a
list, and since the children of a record lie between it and the next one of its
own list, no other record claims them.
-/
import DwarfOne.Proofs.Record.Encoding
import DwarfOne.Proofs.Record.Links

namespace DwarfOne

/-! ## Forests -/

/-- A record whose sibling attribute is yet to be filled in.  Another attribute
of that name may only follow it. -/
structure Forest.Node where
  tag : UInt16
  before : List NamedValue
  after : List NamedValue
  tag_ne : tag ≠ 0
  before_ne : ∀ a ∈ before, AttributeName.ofValue a.rawName ≠ .sibling
  size_lt : 12 + NamedValue.sizeAll before + NamedValue.sizeAll after < 2 ^ 32

/-- A null record of four bytes, at the end of a child list. -/
structure Forest.Closing where
  length : UInt32
  length_le : length ≤ 4

/-- A record without a child list: padding, or one that has no children. -/
inductive Forest.Single
  | filler (b : Draft.Bare)
  | leaf (r : Forest.Node)

/-- A list of records, each with its own child list or without one. -/
inductive Forest
  | nil
  | single (x : Forest.Single) (rest : Forest)
  | node (r : Forest.Node) (children : Forest) (closing : Forest.Closing) (rest : Forest)

namespace Forest

/-- A record with nothing but a tag. -/
def Node.plain (tag : UInt16) (htag : tag ≠ 0) : Node where
  tag := tag
  before := []
  after := []
  tag_ne := htag
  before_ne := fun _ h => absurd h List.not_mem_nil
  size_lt := by decide

/-- A unit without a name. -/
def Node.unit : Node :=
  .plain 0x11 (by decide)

def Closing.null : Closing where
  length := 4
  length_le := UInt32.le_refl 4

def Single.isFiller : Single → Bool
  | filler _ => true
  | leaf _ => false

/-- How many records there are, those that close a child list included. -/
def count : Forest → Nat
  | nil => 0
  | single _ rest => rest.count + 1
  | node _ children _ rest => children.count + 2 + rest.count

theorem add_count_single (x : Single) (rest : Forest) (i : Nat) :
    i + (single x rest).count = i + 1 + rest.count := by
  rw [count]
  omega

theorem add_count_node (r : Node) (children : Forest) (closing : Closing) (rest : Forest)
    (i : Nat) :
    i + (node r children closing rest).count = i + children.count + 2 + rest.count := by
  rw [count]
  omega

/-- No padding on the topmost level. -/
def Rooted : Forest → Prop
  | nil => True
  | single x rest => x.isFiller = false ∧ rest.Rooted
  | node _ _ _ rest => rest.Rooted

/-- The places of the topmost level, if the first is `i`. -/
def places : Forest → Nat → List Nat
  | nil, _ => []
  | single _ rest, i => i :: rest.places (i + 1)
  | node _ children _ rest, i => i :: rest.places (i + children.count + 2)

/-- The parent and the children of every record from place `i` on. -/
def nest (parent : Option Nat) : Forest → Nat → List (Option Nat × List Nat)
  | nil, _ => []
  | single _ rest, i => (parent, []) :: rest.nest parent (i + 1)
  | node _ children _ rest, i =>
      (parent, children.places (i + 1) ++ [i + children.count + 1]) ::
        (children.nest (some i) (i + 1) ++
          (some i, []) :: rest.nest parent (i + children.count + 2))

theorem mem_places : ∀ {f : Forest} {i c : Nat}, c ∈ f.places i → i ≤ c ∧ c < i + f.count
  | single _ rest, i, c, h => by
      rw [add_count_single]
      cases List.mem_cons.mp h with
      | inl heq => omega
      | inr hrest =>
          have hbounds := mem_places hrest
          omega
  | node _ children _ rest, i, c, h => by
      rw [add_count_node]
      cases List.mem_cons.mp h with
      | inl heq => omega
      | inr hrest =>
          have hbounds := mem_places hrest
          omega

/-! ## The links of a forest -/

/-- A link to place `i`, or none past the end. -/
def link (n i : Nat) : Option Nat :=
  if i < n then some i else none

theorem link_of_lt {n i : Nat} (h : i < n) : link n i = some i :=
  if_pos h

theorem link_of_le {n i : Nat} (h : n ≤ i) : link n i = none :=
  if_neg (Nat.not_lt.mpr h)

theorem link_ne_some {n i j : Nat} (h : i ≠ j) : link n i ≠ some j := by
  unfold link
  split
  · simpa using h
  · nofun

theorem filter_link {n i j : Nat} (h : i < j) : (link n j).filter (i < ·) = link n j := by
  unfold link
  split
  · simp [h]
  · rfl

def IsPadding (rows : Array Outline) (i : Nat) : Prop :=
  ∃ row, rows[i]? = some row ∧ row.isPadding = true

theorem IsPadding.lt_size {rows : Array Outline} {i : Nat} (h : IsPadding rows i) :
    i < rows.size := by
  obtain ⟨row, hrow, -⟩ := h
  exact (Array.getElem?_eq_some_iff.mp hrow).1

/-- The links of a forest from place `i` on.  Padding is linked in the topmost
list if `top` is set and in the lists below it if `deep` is. -/
def Linked (rows : Array Outline) (sibling firstChild : Nat → Option Nat) (deep : Bool) :
    Bool → Forest → Nat → Prop
  | _, nil, _ => True
  | top, single x rest, i =>
      (x.isFiller = true → IsPadding rows i) ∧
        sibling i = (if x.isFiller && !top then none else link rows.size (i + 1)) ∧
        firstChild i = none ∧ Linked rows sibling firstChild deep top rest (i + 1)
  | top, node _ children _ rest, i =>
      sibling i = link rows.size (i + children.count + 2) ∧ firstChild i = some (i + 1) ∧
        IsPadding rows (i + children.count + 1) ∧ sibling (i + children.count + 1) = none ∧
        firstChild (i + children.count + 1) = none ∧
        Linked rows sibling firstChild deep deep children (i + 1) ∧
        Linked rows sibling firstChild deep top rest (i + children.count + 2)

namespace Linked

variable {rows : Array Outline} {sibling sibling' firstChild : Nat → Option Nat} {deep : Bool}

/-- Only the links of the forest's own places count. -/
theorem congr : ∀ {f : Forest} {top : Bool} {i : Nat},
    Linked rows sibling firstChild deep top f i →
      (∀ k, i ≤ k → k < i + f.count → sibling' k = sibling k) →
      Linked rows sibling' firstChild deep top f i
  | nil, _, _, _, _ => trivial
  | single _ rest, top, i, ⟨hp, hs, hc, hrest⟩, heq => by
      rw [add_count_single] at heq
      refine ⟨hp, (heq i (by omega) (by omega)).trans hs, hc, hrest.congr ?_⟩
      exact fun k hk hk' => heq k (by omega) hk'
  | node _ children _ rest, top, i, ⟨hs, hc, hp, hs', hc', hchildren, hrest⟩, heq => by
      rw [add_count_node] at heq
      refine ⟨(heq i (by omega) (by omega)).trans hs, hc, hp,
        (heq _ (by omega) (by omega)).trans hs', hc', hchildren.congr ?_, hrest.congr ?_⟩
      · exact fun k hk hk' => heq k (by omega) (by omega)
      · exact fun k hk hk' => heq k (by omega) hk'

/-- Without padding on the topmost level its mark says nothing. -/
theorem of_rooted : ∀ {f : Forest} {top top' : Bool} {i : Nat}, f.Rooted →
    Linked rows sibling firstChild deep top f i → Linked rows sibling firstChild deep top' f i
  | nil, _, _, _, _, _ => trivial
  | single _ _, _, _, _, hr, ⟨hp, hs, hc, hrest⟩ => by
      rw [hr.1, Bool.false_and] at hs
      refine ⟨hp, ?_, hc, hrest.of_rooted hr.2⟩
      rw [hr.1, Bool.false_and]
      exact hs
  | node _ _ _ _, _, _, _, hr, ⟨hs, hc, hp, hs', hc', hchildren, hrest⟩ =>
      ⟨hs, hc, hp, hs', hc', hchildren, hrest.of_rooted hr⟩

end Linked

/-! ## Bridging completes the lists -/

section Bridge

open Links

variable {rows : Array Outline} {afterOwner : Option Nat} {s : Array (Option Nat)}

theorem bridge_none (fuel : Nat) : bridge rows afterOwner fuel s none = s := by
  cases fuel with
  | zero => rfl
  | succ fuel => rfl

theorem bridge_linked {c e : Nat} (fuel : Nat) (h : s.getD c none = some e) :
    bridge rows afterOwner (fuel + 1) s (some c) = bridge rows afterOwner fuel s (some e) := by
  simp [bridge, h]

theorem bridge_padding {c : Nat} (fuel : Nat) (h : s.getD c none = none) (hp : IsPadding rows c)
    (hc : c + 1 < rows.size) (ha : afterOwner ≠ some (c + 1)) :
    bridge rows afterOwner (fuel + 1) s (some c) =
      bridge rows afterOwner fuel (s.setIfInBounds c (some (c + 1))) (some (c + 1)) := by
  obtain ⟨row, hrow, hpadding⟩ := hp
  rw [bridge, if_pos ⟨by rw [h]; rfl, by simp [hrow, hpadding], hc, ha.symm⟩]

/-- At the end of a child list the next record is the one after the owner. -/
theorem bridge_last {c : Nat} (fuel : Nat) (h : s.getD c none = none) :
    bridge rows (link rows.size (c + 1)) (fuel + 1) s (some c) = s := by
  rw [bridge, if_neg, h, bridge_none]
  rintro ⟨-, -, hlt, hne⟩
  exact hne (link_of_lt hlt).symm

/-- A list is completed when it is bridged: the padding in it gets its links,
and nothing else changes. -/
theorem linked_bridge {firstChild : Nat → Option Nat} :
    ∀ (f : Forest) (j fuel : Nat) (s : Array (Option Nat)), s.size = rows.size →
      Linked rows (s.getD · none) firstChild false false f j →
      IsPadding rows (j + f.count) → s.getD (j + f.count) none = none →
      rows.size ≤ j + fuel →
      ∃ s', bridge rows (link rows.size (j + f.count + 1)) fuel s (some j) = s' ∧
        s'.size = rows.size ∧
        (∀ k, k < j ∨ j + f.count ≤ k → s'.getD k none = s.getD k none) ∧
        Linked rows (s'.getD · none) firstChild false true f j
  | f, j, 0, s, _, _, hp, _, hfuel => by
      have hlt := hp.lt_size
      omega
  | nil, j, fuel + 1, s, hsize, _, _, hlast, _ =>
      ⟨s, bridge_last fuel hlast, hsize, fun _ _ => rfl, trivial⟩
  | single (.filler b) rest, j, fuel + 1, s, hsize, ⟨hpj, hs, hc, hrest⟩, hp, hlast, hfuel => by
      rw [add_count_single] at hp hlast ⊢
      have hlt := hp.lt_size
      have hset : ∀ k, (s.setIfInBounds j (some (j + 1))).getD k none =
          if j = k then some (j + 1) else s.getD k none := by
        intro k
        rw [getD_setIfInBounds]
        grind
      rw [bridge_padding fuel hs (hpj rfl) (by omega) (link_ne_some (by omega))]
      obtain ⟨s', heq, hsize', hframe, hlinked⟩ := linked_bridge rest (j + 1) fuel
        (s.setIfInBounds j (some (j + 1))) (by rwa [Array.size_setIfInBounds])
        (hrest.congr fun k hk _ => by rw [hset, if_neg (by omega)]) hp
        (by rw [hset, if_neg (by omega), hlast]) (by omega)
      have hj : s'.getD j none = some (j + 1) := by
        rw [hframe j (by omega), hset, if_pos rfl]
      refine ⟨s', heq, hsize', fun k hk => ?_, hpj, hj.trans (link_of_lt (by omega)).symm, hc,
        hlinked⟩
      rw [hframe k (by omega), hset, if_neg (by omega)]
  | single (.leaf r) rest, j, fuel + 1, s, hsize, ⟨hpj, hs, hc, hrest⟩, hp, hlast, hfuel => by
      rw [add_count_single] at hp hlast ⊢
      have hlt := hp.lt_size
      rw [bridge_linked fuel (hs.trans (link_of_lt (by omega)))]
      obtain ⟨s', heq, hsize', hframe, hlinked⟩ :=
        linked_bridge rest (j + 1) fuel s hsize hrest hp hlast (by omega)
      exact ⟨s', heq, hsize', fun k hk => hframe k (by omega), hpj, (hframe j (by omega)).trans hs,
        hc, hlinked⟩
  | node r children closing rest, j, fuel + 1, s, hsize,
      ⟨hs, hc, hpc, hsc, hcc, hchildren, hrest⟩, hp, hlast, hfuel => by
      rw [add_count_node] at hp hlast ⊢
      have hlt := hp.lt_size
      rw [bridge_linked fuel (hs.trans (link_of_lt (by omega)))]
      obtain ⟨s', heq, hsize', hframe, hlinked⟩ :=
        linked_bridge rest (j + children.count + 2) fuel s hsize hrest hp hlast (by omega)
      exact ⟨s', heq, hsize', fun k hk => hframe k (by omega), (hframe j (by omega)).trans hs, hc,
        hpc, (hframe (j + children.count + 1) (by omega)).trans hsc, hcc,
        hchildren.congr fun k _ hk => hframe k (by omega), hlinked⟩

theorem range'_node (i m n : Nat) : List.range' i (m + 2 + n) =
    i :: (List.range' (i + 1) m ++ (i + m + 1) :: List.range' (i + m + 2) n) := by
  have hsplit := (List.range'_append_1 (s := i + 1) (m := m) (n := n + 1)).symm
  rw [show m + 2 + n = m + (n + 1) + 1 by omega, List.range'_succ, hsplit, List.range'_succ,
    show i + 1 + m = i + m + 1 by omega]

theorem bridgeStep_of_none {firstChild : Array (Option Nat)} {i : Nat}
    (h : firstChild.getD i none = none) : bridgeStep rows firstChild s i = s := by
  rw [bridgeStep, h, bridge_none]

theorem bridgeStep_of_some {firstChild : Array (Option Nat)} {i c : Nat} {a : Option Nat}
    (h : firstChild.getD i none = some c) (ha : s.getD i none = a) :
    bridgeStep rows firstChild s i = bridge rows a rows.size s (some c) := by
  rw [bridgeStep, h, ha]

/-- All lists below the topmost one are completed when each record's child list
is bridged in turn. -/
theorem linked_foldl_bridgeStep {firstChild : Array (Option Nat)} :
    ∀ (f : Forest) (top : Bool) (i : Nat) (s : Array (Option Nat)), s.size = rows.size →
      Linked rows (s.getD · none) (firstChild.getD · none) false top f i →
      ∃ s', (List.range' i f.count).foldl (bridgeStep rows firstChild) s = s' ∧
        s'.size = rows.size ∧
        (∀ k, k < i ∨ i + f.count ≤ k → s'.getD k none = s.getD k none) ∧
        Linked rows (s'.getD · none) (firstChild.getD · none) true top f i
  | nil, _, _, s, hsize, _ => ⟨s, rfl, hsize, fun _ _ => rfl, trivial⟩
  | single x rest, top, i, s, hsize, ⟨hp, hs, hc, hrest⟩ => by
      obtain ⟨s', heq, hsize', hframe, hlinked⟩ :=
        linked_foldl_bridgeStep rest top (i + 1) s hsize hrest
      rw [add_count_single, count, List.range'_succ, List.foldl_cons, bridgeStep_of_none hc]
      exact ⟨s', heq, hsize', fun k hk => hframe k (by omega), hp,
        (hframe i (by omega)).trans hs, hc, hlinked⟩
  | node r children closing rest, top, i, s, hsize,
      ⟨hs, hc, hpc, hsc, hcc, hchildren, hrest⟩ => by
      have hclosing : i + 1 + children.count = i + children.count + 1 := by omega
      -- the record's own list, then the lists below it, then those after it
      obtain ⟨s₁, heq₁, hsize₁, hframe₁, hlinked₁⟩ := linked_bridge children (i + 1) rows.size s
        hsize hchildren (by rwa [hclosing]) (by rwa [hclosing]) (by omega)
      obtain ⟨s₂, heq₂, hsize₂, hframe₂, hlinked₂⟩ :=
        linked_foldl_bridgeStep children true (i + 1) s₁ hsize₁ hlinked₁
      have hframe : ∀ k, k < i + 1 ∨ i + 1 + children.count ≤ k →
          s₂.getD k none = s.getD k none :=
        fun k hk => (hframe₂ k hk).trans (hframe₁ k hk)
      obtain ⟨s₃, heq₃, hsize₃, hframe₃, hlinked₃⟩ :=
        linked_foldl_bridgeStep rest top (i + children.count + 2) s₂ hsize₂
          (hrest.congr fun k hk _ => hframe k (by omega))
      have hstep : bridgeStep rows firstChild s i = s₁ := by
        rw [hclosing] at heq₁
        exact (bridgeStep_of_some hc hs).trans heq₁
      simp only [count]
      rw [range'_node, List.foldl_cons, List.foldl_append, List.foldl_cons, hstep, heq₂,
        bridgeStep_of_none hcc, heq₃]
      have hframe' : ∀ k, k < i + 1 ∨ k = i + children.count + 1 →
          s₃.getD k none = s.getD k none :=
        fun k hk => (hframe₃ k (by omega)).trans (hframe k (by omega))
      refine ⟨s₃, rfl, hsize₃, fun k hk => ?_, (hframe' i (by omega)).trans hs, hc, hpc,
        (hframe' _ (.inr rfl)).trans hsc, hcc, ?_, hlinked₃⟩
      · rw [hframe₃ k (by omega), hframe k (by omega)]
      · exact hlinked₂.congr fun k _ hk => hframe₃ k (by omega)

/-- `bridgeAll` leaves out the last record, which has no children. -/
theorem bridgeAll_eq_foldl_range {firstChild : Array (Option Nat)}
    (hlast : ∀ i, i + 1 = rows.size → firstChild.getD i none = none) :
    bridgeAll rows firstChild s = (List.range rows.size).foldl (bridgeStep rows firstChild) s := by
  rw [bridgeAll_eq]
  cases hn : rows.size with
  | zero => rfl
  | succ n =>
      rw [Nat.add_sub_cancel, List.range_succ, List.foldl_append, List.foldl_cons, List.foldl_nil,
        bridgeStep_of_none (hlast n hn.symm)]

/-- Linking completes what sibling attributes have begun. -/
theorem linked_ofOutlines {find : UInt32 → Option Nat} {f : Forest} {top : Bool}
    (hcount : f.count = rows.size)
    (h : Linked rows (fun i => (own rows find i).1) (fun i => (own rows find i).2) false top f 0) :
    Linked rows ((ofOutlines rows find).sibling.getD · none)
      ((ofOutlines rows find).firstChild.getD · none) true top f 0 := by
  simp only [← getD_ownSiblings, ← getD_firstChild] at h
  have hlast : ∀ i, i + 1 = rows.size → (ofOutlines rows find).firstChild.getD i none = none := by
    intro i hi
    rw [getD_firstChild, own_of_last (Array.getElem?_eq_none (Nat.le_of_eq hi.symm))]
  obtain ⟨s, heq, -, -, hlinked⟩ :=
    linked_foldl_bridgeStep f top 0 _ (size_ownSiblings rows find) h
  rw [hcount, ← List.range_eq_range', ← bridgeAll_eq_foldl_range hlast] at heq
  rwa [sibling_ofOutlines, heq]

end Bridge

/-! ## Walking along complete links -/

section Walk

open Links

variable {rows : Array Outline} {sibling firstChild : Nat → Option Nat} {deep : Bool}

/-- A walk meets the places of a list in order and goes on behind it. -/
theorem walk_places : ∀ (f : Forest) (i : Nat) {l : List Nat},
    Linked rows sibling firstChild deep true f i → i + f.count ≤ rows.size →
      Walk sibling (link rows.size (i + f.count)) l →
      Walk sibling (link rows.size i) (f.places i ++ l)
  | nil, i, l, _, _, hw => hw
  | single x rest, i, l, ⟨_, hs, _, hrest⟩, hle, hw => by
      rw [add_count_single] at hle hw
      rw [link_of_lt (by omega)]
      refine .step ?_
      rw [hs, Bool.not_true, Bool.and_false, if_neg Bool.false_ne_true]
      exact walk_places rest (i + 1) hrest hle hw
  | node r children closing rest, i, l, ⟨hs, _, _, _, _, _, hrest⟩, hle, hw => by
      rw [add_count_node] at hle hw
      rw [link_of_lt (by omega)]
      refine .step ?_
      rw [hs]
      exact walk_places rest (i + children.count + 2) hrest hle hw

/-- A child list is followed up to the record that closes it. -/
theorem walk_children {children : Forest} {i : Nat}
    (h : Linked rows sibling firstChild deep true children (i + 1))
    (hp : IsPadding rows (i + children.count + 1))
    (hlast : sibling (i + children.count + 1) = none) :
    Walk sibling (some (i + 1)) (children.places (i + 1) ++ [i + children.count + 1]) := by
  have hlt := hp.lt_size
  rw [← link_of_lt (show i + 1 < rows.size by omega)]
  refine walk_places children (i + 1) h (by omega) ?_
  rw [show i + 1 + children.count = i + children.count + 1 by omega, link_of_lt hlt]
  refine .step ?_
  rw [hlast]
  exact .done

end Walk

/-! ## Parents and children -/

section Nest

variable {d : DebugInfo} (hd : d.WellLinked) {rows : Array Outline}
include hd

theorem children_eq_nil {i : Nat} (h : d.firstChild i = none) : d.children i = [] := by
  have hwalk := (hd.children i).1
  rw [h] at hwalk
  exact Links.Walk.done.unique hwalk

theorem children_eq {children : Forest} {i : Nat} (hfirst : d.firstChild i = some (i + 1))
    (h : Linked rows d.sibling d.firstChild true true children (i + 1))
    (hp : IsPadding rows (i + children.count + 1))
    (hlast : d.sibling (i + children.count + 1) = none) :
    d.children i = children.places (i + 1) ++ [i + children.count + 1] := by
  refine (walk_children h hp hlast).unique ?_
  rw [← hfirst]
  exact (hd.children i).1

/-- A record's children come after it. -/
theorem lt_of_mem_children {q c : Nat} (h : c ∈ d.children q) : q < c ∧ q < d.records.size := by
  refine ⟨(hd.children q).1.forall_mem (fun i s hi hs => Nat.lt_trans hi (hd.sibling_lt i s hs).1)
    (fun i hi => ?_) c h, ?_⟩
  · rw [(hd.firstChild_eq q i hi).1]
    exact Nat.lt_succ_self q
  · cases hfirst : d.firstChild q with
    | none =>
        rw [children_eq_nil hd hfirst] at h
        cases h
    | some e =>
        have hfacts := hd.firstChild_eq q e hfirst
        omega

/-- The children of a forest's records are records of the forest, and none is
on its topmost level. -/
theorem mem_children : ∀ {f : Forest} {top : Bool} {i : Nat},
    Linked rows d.sibling d.firstChild true top f i → ∀ {q c : Nat}, i ≤ q → q < i + f.count →
      c ∈ d.children q → c < i + f.count ∧ c ∉ f.places i
  | nil, _, _, _, _, _, hq, hq', _ => absurd hq (Nat.not_le.mpr hq')
  | single x rest, top, i, ⟨_, _, hfirst, hrest⟩, q, c, hq, hq', hc => by
      rw [add_count_single] at hq' ⊢
      have hlt := lt_of_mem_children hd hc
      have hne : q ≠ i := by
        rintro rfl
        simp [children_eq_nil hd hfirst] at hc
      have hmem := mem_children hrest (by omega) hq' hc
      exact ⟨hmem.1, List.not_mem_cons_of_ne_of_not_mem (by omega) hmem.2⟩
  | node r children closing rest, top, i, ⟨_, hfirst, hp, hs, hnone, hchildren, hrest⟩,
      q, c, hq, hq', hc => by
      rw [add_count_node] at hq' ⊢
      have hlt := lt_of_mem_children hd hc
      by_cases hrest' : i + children.count + 2 ≤ q
      · have hmem := mem_children hrest hrest' hq' hc
        exact ⟨hmem.1, List.not_mem_cons_of_ne_of_not_mem (by omega) hmem.2⟩
      -- the children of the record, or of one below it, lie before the rest
      have hbefore : c < i + children.count + 2 := by
        by_cases hown : q = i
        · rw [hown, children_eq hd hfirst hchildren hp hs] at hc
          cases List.mem_append.mp hc with
          | inl hplace =>
              have hbounds := mem_places hplace
              omega
          | inr hclosing =>
              have heq := List.mem_singleton.mp hclosing
              omega
        · have hne : q ≠ i + children.count + 1 := by
            rintro rfl
            simp [children_eq_nil hd hnone] at hc
          have hmem := mem_children hchildren (by omega) (by omega) hc
          omega
      refine ⟨by omega, List.not_mem_cons_of_ne_of_not_mem (by omega) fun hmem => ?_⟩
      have hbounds := mem_places hmem
      omega

/-- A record's parent is the one whose child list it is in. -/
theorem parent_eq {r : Node} {children rest : Forest} {closing : Closing} {top : Bool} {i c : Nat}
    (h : Linked rows d.sibling d.firstChild true top (node r children closing rest) i)
    (hc : c ∈ children.places (i + 1) ++ [i + children.count + 1]) : d.parent c = some i := by
  obtain ⟨-, hfirst, hp, hs, -, hchildren, -⟩ := h
  refine (hd.parent_eq_some_iff c i).mpr ⟨by rwa [children_eq hd hfirst hchildren hp hs], ?_⟩
  intro q hq
  refine Nat.le_of_not_lt fun hlt => ?_
  have hafter := lt_of_mem_children hd hq
  cases List.mem_append.mp hc with
  | inl hplace =>
      have hbounds := mem_places hplace
      exact (mem_children hd hchildren (by omega) (by omega) hq).2 hplace
  | inr hclosing =>
      have heq := List.mem_singleton.mp hclosing
      have hinner := mem_children hd hchildren (by omega) (by omega) hq
      omega

/-- The records of a forest have the parents and children that it gives them. -/
theorem map_eq_nest : ∀ {f : Forest} {top : Bool} {parent : Option Nat} {i : Nat},
    Linked rows d.sibling d.firstChild true top f i → (∀ c ∈ f.places i, d.parent c = parent) →
      (List.range' i f.count).map (fun j => (d.parent j, d.children j)) = f.nest parent i
  | nil, _, _, _, _, _ => rfl
  | single x rest, top, parent, i, ⟨_, _, hfirst, hrest⟩, hparent => by
      rw [count, List.range'_succ, List.map_cons, nest, hparent i (List.mem_cons_self ..),
        children_eq_nil hd hfirst,
        map_eq_nest hrest fun c hc => hparent c (List.mem_cons_of_mem _ hc)]
  | node r children closing rest, top, parent, i, h, hparent => by
      have hchild := fun c => parent_eq hd h (c := c)
      obtain ⟨-, hfirst, hp, hs, hnone, hchildren, hrest⟩ := h
      rw [count, range'_node, List.map_cons, List.map_append, List.map_cons, nest,
        hparent i (List.mem_cons_self ..), children_eq hd hfirst hchildren hp hs,
        map_eq_nest hchildren fun c hc => hchild c (List.mem_append_left _ hc),
        hchild _ (List.mem_append_right _ (List.mem_singleton_self _)), children_eq_nil hd hnone,
        map_eq_nest hrest fun c hc => hparent c (List.mem_cons_of_mem _ hc)]

end Nest

end Forest

end DwarfOne
