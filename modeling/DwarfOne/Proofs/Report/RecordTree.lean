/-
# `Proofs.Report.RecordTree` — the tree that is shown of a forest

A forest says which records each record is in: `Forest.placed` lists its records as
they are written, with the offsets of those around them.  What a tree has to show
follows from that list alone.  A record that is not padding is shown once, indented
by the records around it up to the start, and left out when they are too many.

The tree itself is written along the links that were read back.  `treeLines_places`
goes with it through a forest, by induction on the forest, and gives the lines of
the list; `treeLines_start` finds the record to start from and leaves the rest out.
-/
import DwarfOne.Proofs.Record.Preorder
import DwarfOne.Command.Basic
import Mathlib.Data.List.Basic

namespace DwarfOne

/-! ## The text of a line -/

namespace TreeLine

/-- Four spaces for each level. -/
def indentation (level : Nat) : String :=
  String.join (List.replicate level "    ")

/-- A line whose tag or attribute name is painted in some way. -/
def painted (paint : Paint) : TreeLine → String
  | .heading level offset tag =>
      indentation level ++ Numeral.offset offset.toNat ++ ": " ++ paint .treeTag tag
  | .property level name value =>
      indentation (level + 1) ++ paint .treeAttribute name ++ ": " ++ value

theorem toList_indentation (level : Nat) :
    (indentation level).toList = List.replicate (level * 4) ' ' := by
  have hunit : "    ".toList = List.replicate 4 ' ' := rfl
  rw [indentation, String.toList_join, List.flatMap_replicate, hunit,
    List.flatten_replicate_replicate]

theorem spaces_eq_indentation (level : Nat) : Style.spaces (4 * level) = indentation level := by
  rw [← String.toList_inj, Style.spaces, String.toList_ofList, toList_indentation, Nat.mul_comm]

theorem text_eq_painted (paint : Paint) (line : TreeLine) :
    line.text paint = line.painted paint := by
  cases line with
  | heading level offset tag => rw [text, painted, spaces_eq_indentation]
  | property level name value => rw [text, painted, spaces_eq_indentation]

end TreeLine

namespace Forest

/-! ## What there is to show -/

/-- A record and the offsets of the records it is in, the innermost first. -/
structure Placed where
  record : RawRecord
  around : List UInt32

/-- The records of a forest at an offset, as they are written. -/
def placed (around : List UInt32) : Forest → Nat → List Placed
  | nil, _ => []
  | single x rest, offset =>
      ⟨(x.draft offset).place offset, around⟩ :: rest.placed around (offset + x.size)
  | node r children closing rest, offset =>
      ⟨(r.draft (offset + r.size + children.size + 4)).place offset, around⟩ ::
        (children.placed (UInt32.ofNat offset :: around) (offset + r.size) ++
          ⟨closing.draft.place (offset + r.size + children.size), UInt32.ofNat offset :: around⟩ ::
            rest.placed around (offset + r.size + children.size + 4))

/-- How many records it takes to go up from a record to the start, or out of all
of them.  A record that is not below the start has no level. -/
def Placed.level? (x : Placed) : Option UInt32 → Option Nat
  | none => some x.around.length
  | some start => (x.record.offset :: x.around).idxOf? start

/-- A record that is shown, and how far it is indented. -/
structure Shown where
  level : Nat
  record : RawRecord

/-- Padding is not shown, nor is what has no level. -/
def Placed.shown? (level : Option Nat) (x : Placed) : Option Shown :=
  if x.record.outline.isPadding then none else level.map (⟨·, x.record⟩)

/-- What is shown of a forest from a start on, or of all of it. -/
def shown (f : Forest) (start : Option UInt32) : List Shown :=
  (f.placed [] 0).filterMap fun x => x.shown? (x.level? start)

/-- A heading, then each attribute but the sibling. -/
def Shown.lines (value : Attribute → String) (s : Shown) : List TreeLine :=
  .heading s.level s.record.offset s.record.tag.text ::
    (s.record.attributes.filter (·.name ≠ .sibling)).map fun a =>
      .property s.level a.name.text (value a)

/-- Whether a level is within a depth. -/
def Shown.within (depth : Option Nat) (s : Shown) : Bool :=
  depth.all (s.level ≤ ·)

/-- The lines of what is shown of a forest down to a depth. -/
def listing (f : Forest) (value : Attribute → String) (start : Option UInt32)
    (depth : Option Nat) : List TreeLine :=
  ((f.shown start).filter (Shown.within depth)).flatMap (Shown.lines value)

/-- What is shown of all of a forest is what is not padding. -/
theorem map_record_shown (f : Forest) : (f.shown none).map Shown.record =
    ((f.placed [] 0).map Placed.record).filter (!·.outline.isPadding) := by
  rw [shown, List.map_filterMap, List.filter_map, ← List.filterMap_eq_map, List.filterMap_filter]
  congr 1
  funext x
  rw [Placed.level?, Placed.shown?]
  cases hpadding : x.record.outline.isPadding with
  | true => simp [hpadding]
  | false => simp [hpadding]

/-! ## The list of records -/

theorem length_placed : ∀ (f : Forest) (around : List UInt32) (offset : Nat),
    (f.placed around offset).length = f.count
  | nil, _, _ => rfl
  | single x rest, around, offset => by
      rw [placed, count, List.length_cons, length_placed rest]
  | node r children closing rest, around, offset => by
      simp only [placed, count, List.length_cons, List.length_append, length_placed children,
        length_placed rest]
      omega

theorem map_record_placed : ∀ (f : Forest) (around : List UInt32) (offset : Nat),
    (f.placed around offset).map Placed.record =
      placeFrom Draft.size Draft.place offset (f.drafts offset)
  | nil, _, _ => rfl
  | single x rest, around, offset => by
      rw [placed, drafts, placeFrom, List.map_cons, map_record_placed rest, x.size_draft]
  | node r children closing rest, around, offset => by
      have hbytes : ((children.drafts (offset + r.size)).map Draft.size).sum = children.size :=
        children.sizeAll_drafts _
      simp only [placed, drafts, placeFrom, List.map_cons, List.map_append, placeFrom_append,
        map_record_placed children, map_record_placed rest, hbytes, Node.size_draft,
        Closing.size_draft]

theorem Single.size_pos (x : Single) : 0 < x.size := by
  have hpos := (x.draft 0).four_le_size
  rw [x.size_draft] at hpos
  omega

theorem Node.size_pos (r : Node) : 0 < r.size := by
  rw [size]
  omega

theorem isPadding_node (r : Node) (target offset : Nat) :
    ((r.draft target).place offset).outline.isPadding = false :=
  congrArg Outline.isPadding (outline_draft r target offset)

theorem isPadding_closing (c : Closing) (offset : Nat) :
    (c.draft.place offset).outline.isPadding = true :=
  congrArg Outline.isPadding (outline_bare _ offset)

/-! ### What is around a record -/

/-- The record and what is around it, up to what is around the whole list, are at
offsets from `low` up to `high`. -/
def Placed.Inside (around : List UInt32) (low high : Nat) (x : Placed) : Prop :=
  ∃ inner, x.around = inner ++ around ∧
    ∀ a ∈ x.record.offset :: inner, low ≤ a.toNat ∧ a.toNat < high

theorem Placed.level?_own {x : Placed} {start : UInt32} (h : x.record.offset = start) :
    x.level? (some start) = some 0 := by
  rw [level?, h, List.idxOf?_cons, beq_self_eq_true, if_pos rfl]

theorem idxOf?_append_cons {start : UInt32} (rest : List UInt32) :
    ∀ {inner : List UInt32}, start ∉ inner →
      (inner ++ start :: rest).idxOf? start = some inner.length
  | [], _ => by
      rw [List.nil_append, List.idxOf?_cons, beq_self_eq_true, if_pos rfl, List.length_nil]
  | a :: inner, hnot => by
      rw [List.mem_cons, not_or] at hnot
      rw [List.cons_append, List.idxOf?_cons, if_neg (by simpa using Ne.symm hnot.1),
        idxOf?_append_cons rest hnot.2, Option.map_some, List.length_cons]

namespace Placed.Inside

variable {x : Placed} {around : List UInt32} {low low' high high' : Nat}

theorem mono (h : x.Inside around low high) (hlow : low' ≤ low) (hhigh : high ≤ high') :
    x.Inside around low' high' := by
  obtain ⟨inner, haround, hinner⟩ := h
  refine ⟨inner, haround, fun a ha => ?_⟩
  have hbounds := hinner a ha
  omega

/-- A record of the list itself. -/
theorem own {r : RawRecord} {offset : Nat} (hr : r.offset = UInt32.ofNat offset)
    (hoffset : offset < 2 ^ 32) (hlow : low ≤ offset) (hhigh : offset < high) :
    (Placed.mk r around).Inside around low high := by
  refine ⟨[], rfl, fun a ha => ?_⟩
  rw [List.mem_singleton.mp ha, hr, UInt32.toNat_ofNat_of_lt' hoffset]
  exact ⟨hlow, hhigh⟩

/-- One of the records around it may be counted in. -/
theorem of_cons {a : UInt32} (h : x.Inside (a :: around) low high) (hlow : low ≤ a.toNat)
    (hhigh : a.toNat < high) : x.Inside around low high := by
  obtain ⟨inner, haround, hinner⟩ := h
  refine ⟨inner ++ [a], by rw [haround, List.append_assoc, List.singleton_append], ?_⟩
  intro b hb
  rw [← List.cons_append, List.mem_append, List.mem_singleton] at hb
  rcases hb with hb | rfl
  · exact hinner b hb
  · exact ⟨hlow, hhigh⟩

theorem length_le (h : x.Inside around low high) : around.length ≤ x.around.length := by
  obtain ⟨inner, haround, -⟩ := h
  rw [haround, List.length_append]
  omega

/-- Offsets elsewhere are not among them. -/
theorem notMem (h : x.Inside around low high) {start : UInt32} (hstart : start ∉ around)
    (hout : start.toNat < low ∨ high ≤ start.toNat) : start ∉ x.record.offset :: x.around := by
  obtain ⟨inner, haround, hinner⟩ := h
  rw [haround, ← List.cons_append, List.mem_append]
  rintro (hmem | hmem)
  · have hbounds := hinner start hmem
    omega
  · exact hstart hmem

/-- Going up from a record inside the start takes as many records as are around it. -/
theorem level?_eq {start : UInt32} (h : x.Inside (start :: around) low high)
    (hlow : start.toNat < low) :
    x.level? (some start) = some (x.around.length - around.length) := by
  obtain ⟨inner, haround, hinner⟩ := h
  have hnot : start ∉ x.record.offset :: inner := by
    intro hmem
    have hbounds := hinner start hmem
    omega
  have hlevel := idxOf?_append_cons around hnot
  rw [List.cons_append, ← haround] at hlevel
  rw [level?, hlevel, haround, List.length_append, List.length_cons, List.length_cons]
  congr 1
  omega

end Placed.Inside

theorem inside_placed : ∀ {f : Forest} {around : List UInt32} {offset : Nat},
    offset + f.size ≤ 2 ^ 32 → ∀ x ∈ f.placed around offset,
      x.Inside around offset (offset + f.size)
  | nil, _, _, _, _, hx => absurd hx List.not_mem_nil
  | single y rest, around, offset, hsize, x, hx => by
      rw [size, ← Nat.add_assoc] at hsize ⊢
      have hpos := y.size_pos
      rcases List.mem_cons.mp hx with rfl | hrest
      · exact .own (Draft.offset_place _ _) (by omega) (Nat.le_refl _) (by omega)
      · exact (inside_placed hsize x hrest).mono (by omega) (Nat.le_refl _)
  | node r children closing rest, around, offset, hsize, x, hx => by
      have hall : offset + (node r children closing rest).size =
          offset + r.size + children.size + 4 + rest.size := by
        rw [size]
        omega
      rw [hall] at hsize ⊢
      have hpos := r.size_pos
      have hown : (UInt32.ofNat offset).toNat = offset :=
        UInt32.toNat_ofNat_of_lt' (by show _ < 2 ^ 32; omega)
      rcases List.mem_cons.mp hx with rfl | hx
      · exact .own (Draft.offset_place _ _) (by omega) (Nat.le_refl _) (by omega)
      rcases List.mem_append.mp hx with hchild | hx
      · have hinside := inside_placed (by omega) x hchild
        exact (hinside.mono (by omega) (by omega)).of_cons (by omega) (by omega)
      rcases List.mem_cons.mp hx with rfl | hrest
      · refine Placed.Inside.of_cons (a := UInt32.ofNat offset) ?_ (by omega) (by omega)
        exact .own (Draft.offset_place _ _) (by omega) (by omega) (by omega)
      · exact (inside_placed hsize x hrest).mono (by omega) (Nat.le_refl _)

theorem placed_node (r : Node) (children : Forest) (closing : Closing) (rest : Forest)
    (around : List UInt32) (offset : Nat) :
    (node r children closing rest).placed around offset =
      (node r children closing nil).placed around offset ++
        rest.placed around (offset + r.size + children.size + 4) := by
  simp [placed]

/-- From a record with its list one goes up to the record. -/
theorem level?_node {r : Node} {children : Forest} {closing : Closing} {around : List UInt32}
    {offset : Nat} (hsize : offset + (node r children closing nil).size ≤ 2 ^ 32) :
    ∀ x ∈ (node r children closing nil).placed around offset,
      x.level? (some (UInt32.ofNat offset)) = some (x.around.length - around.length) := by
  intro x hx
  rw [size, size, Nat.add_zero] at hsize
  have hpos := r.size_pos
  have hown : (UInt32.ofNat offset).toNat = offset :=
    UInt32.toNat_ofNat_of_lt' (by show _ < 2 ^ 32; omega)
  rcases List.mem_cons.mp hx with rfl | hx
  · rw [Placed.level?_own (Draft.offset_place _ _), Nat.sub_self]
  rcases List.mem_append.mp hx with hchild | hx
  · exact (inside_placed (by omega) x hchild).level?_eq (by omega)
  · obtain rfl := List.mem_singleton.mp hx
    have hinside := @Placed.Inside.own (UInt32.ofNat offset :: around) (offset + r.size)
      (offset + r.size + children.size + 4) _ _
      (Draft.offset_place closing.draft (offset + r.size + children.size)) (by omega) (by omega)
      (by omega)
    exact hinside.level?_eq (by omega)

/-! ### Records at their places -/

/-- The records stand at the places from `i` on. -/
def StandAt (d : DebugInfo) (i : Nat) (xs : List Placed) : Prop :=
  (List.range' i xs.length).map d.raw = xs.map Placed.record

theorem standAt_cons {d : DebugInfo} {i : Nat} {x : Placed} {xs : List Placed} :
    StandAt d i (x :: xs) ↔ d.raw i = x.record ∧ StandAt d (i + 1) xs := by
  rw [StandAt, List.length_cons, List.range'_succ, List.map_cons, List.map_cons, List.cons_eq_cons]
  rfl

theorem standAt_append {d : DebugInfo} {i : Nat} {xs ys : List Placed} :
    StandAt d i (xs ++ ys) ↔ StandAt d i xs ∧ StandAt d (i + xs.length) ys := by
  have hlength : ((List.range' i xs.length).map d.raw).length =
      (xs.map Placed.record).length := by simp
  rw [StandAt, List.length_append, ← List.range'_append_1, List.map_append, List.map_append]
  exact ⟨fun h => List.append_inj h hlength, fun h => congr (congrArg _ h.1) h.2⟩

/-! ## The lines of a forest -/

/-- The lines of a record at a level, if it is shown and within the depth. -/
def Placed.print (d : DebugInfo) (depth level : Option Nat) (x : Placed) : List TreeLine :=
  ((x.shown? level).filter (Shown.within depth)).elim [] (Shown.lines d.attributeText)

theorem flatMap_filterMap {α β γ : Type} (g : α → Option β) (h : β → List γ) (xs : List α) :
    (xs.filterMap g).flatMap h = xs.flatMap fun x => (g x).elim [] h := by
  induction xs with
  | nil => rfl
  | cons x xs ih =>
      rw [List.flatMap_cons, ← ih, List.filterMap_cons]
      cases g x with
      | none => rfl
      | some b => rfl

theorem listing_eq (f : Forest) (d : DebugInfo) (start : Option UInt32) (depth : Option Nat) :
    f.listing d.attributeText start depth =
      (f.placed [] 0).flatMap fun x => x.print d depth (x.level? start) := by
  rw [listing, shown, List.filter_filterMap, flatMap_filterMap]
  rfl

namespace Placed

variable {d : DebugInfo} {depth : Option Nat} {x : Placed}

theorem print_none : x.print d depth none = [] := by
  rw [print, shown?]
  split
  · rfl
  · rfl

theorem print_of_padding {level : Option Nat} (h : x.record.outline.isPadding = true) :
    x.print d depth level = [] := by
  rw [print, shown?, if_pos h]
  rfl

theorem print_some {level : Nat} (h : x.record.outline.isPadding = false) :
    x.print d depth (some level) = if depth.all (level ≤ ·) then
      Shown.lines d.attributeText ⟨level, x.record⟩ else [] := by
  rw [print, shown?, if_neg (by rw [h]; exact Bool.false_ne_true), Option.map_some,
    Option.filter_some]
  show (if depth.all (level ≤ ·) then _ else _ : Option Shown).elim _ _ = _
  split
  · rfl
  · rfl

theorem print_node (r : Node) (target offset : Nat) (around : List UInt32) (level : Nat) :
    (Placed.mk ((r.draft target).place offset) around).print d depth (some level) =
      if depth.all (level ≤ ·) then
        Shown.lines d.attributeText ⟨level, (r.draft target).place offset⟩ else [] :=
  print_some (isPadding_node r target offset)

theorem print_closing (c : Closing) (offset : Nat) (around : List UInt32) (level : Option Nat) :
    (Placed.mk (c.draft.place offset) around).print d depth level = [] :=
  print_of_padding (isPadding_closing c offset)

end Placed

section Lines

variable {d : DebugInfo} {depth : Option Nat}

/-- What a step of the tree writes, by the record that stands there. -/
theorem treeLines_succ {i : Nat} {x : Placed} (h : d.raw i = x.record) (fuel level : Nat) :
    d.treeLines depth (fuel + 1) level i =
      if x.record.outline.isPadding then []
      else Shown.lines d.attributeText ⟨level, x.record⟩ ++
        if depth.all (level < ·) then
          (d.children i).flatMap (d.treeLines depth fuel (level + 1))
        else [] := by
  rw [← h]
  rfl

theorem treeLines_of_padding {i : Nat} {x : Placed} (h : d.raw i = x.record)
    (hpadding : x.record.outline.isPadding = true) (fuel level : Nat) :
    d.treeLines depth fuel level i = [] := by
  cases fuel with
  | zero => rfl
  | succ fuel => rw [treeLines_succ h, if_pos hpadding]

/-- A record without children writes its own lines. -/
theorem treeLines_childless {i : Nat} {x : Placed} (h : d.raw i = x.record)
    (hchildren : d.children i = []) {level : Nat} (hlevel : depth.all (level ≤ ·) = true)
    (fuel : Nat) : d.treeLines depth (fuel + 1) level i = x.print d depth (some level) := by
  cases hpadding : x.record.outline.isPadding with
  | true => rw [treeLines_of_padding h hpadding, Placed.print_of_padding hpadding]
  | false =>
      rw [treeLines_succ h, hpadding, Placed.print_some hpadding, if_pos hlevel, hchildren]
      simp

/-- Beyond the depth nothing is written. -/
theorem flatMap_print_beyond {xs : List Placed} {level : Placed → Nat} {bound : Nat}
    (hbound : depth.all (bound ≤ ·) = false) (hlevel : ∀ x ∈ xs, bound ≤ level x) :
    xs.flatMap (fun x => x.print d depth (some (level x))) = [] := by
  rw [List.flatMap_eq_nil_iff]
  intro x hx
  have hbeyond : ¬ depth.all (level x ≤ ·) = true := by
    intro hwithin
    rw [Option.all_eq_true] at hwithin
    rw [← Bool.not_eq_true, Option.all_eq_true] at hbound
    refine hbound fun n hn => decide_eq_true ?_
    exact Nat.le_trans (hlevel x hx) (of_decide_eq_true (hwithin n hn))
  cases hpadding : x.record.outline.isPadding with
  | true => exact Placed.print_of_padding hpadding
  | false => rw [Placed.print_some hpadding, if_neg hbeyond]

/-- Nothing is written of records that are not below the start. -/
theorem Placed.print_outside {start : UInt32} {x : Placed}
    (h : start ∉ x.record.offset :: x.around) : x.print d depth (x.level? (some start)) = [] := by
  rw [level?, List.idxOf?_eq_none_iff.mpr h, print_none]

theorem flatMap_print_outside {start : UInt32} {f : Forest} {around : List UInt32} {offset : Nat}
    (hsize : offset + f.size ≤ 2 ^ 32) (hstart : start ∉ around)
    (hout : start.toNat < offset ∨ offset + f.size ≤ start.toNat) :
    (f.placed around offset).flatMap (fun x => x.print d depth (x.level? (some start))) = [] := by
  rw [List.flatMap_eq_nil_iff]
  exact fun x hx => Placed.print_outside ((inside_placed hsize x hx).notMem hstart hout)

/-- Of a record with its list, only the list may have records below the start. -/
theorem flatMap_print_node {start : UInt32} {r : Node} {children : Forest} {closing : Closing}
    {around : List UInt32} {offset : Nat} (hout : start ∉ UInt32.ofNat offset :: around) :
    ((node r children closing nil).placed around offset).flatMap
        (fun x => x.print d depth (x.level? (some start))) =
      (children.placed (UInt32.ofNat offset :: around) (offset + r.size)).flatMap
        fun x => x.print d depth (x.level? (some start)) := by
  rw [placed, List.flatMap_cons, Placed.print_outside (by rwa [Draft.offset_place]),
    List.nil_append, List.flatMap_append, placed, List.flatMap_singleton,
    Placed.print_closing, List.append_nil]

/-- A record before the start is not around it. -/
theorem notMem_cons_of_lt {start : UInt32} {around : List UInt32} {offset : Nat}
    (hstart : start ∉ around) (hlt : offset < start.toNat) :
    start ∉ UInt32.ofNat offset :: around := by
  rw [List.mem_cons, not_or]
  refine ⟨?_, hstart⟩
  rintro rfl
  rw [UInt32.toNat_ofNat'] at hlt
  exact absurd hlt (Nat.not_lt.mpr (Nat.mod_le _ _))

theorem all_zero_le (depth : Option Nat) : depth.all (0 ≤ ·) = true := by
  rw [Option.all_eq_true]
  exact fun n _ => decide_eq_true (Nat.zero_le n)

/-- The offset of a record that stands in a forest. -/
theorem offset_of_standAt {f : Forest} {i offset q : Nat} {around : List UInt32}
    (h : StandAt d i (f.placed around offset)) (hsize : offset + f.size ≤ 2 ^ 32) (hq : i ≤ q)
    (hq' : q < i + f.count) :
    offset ≤ (d.raw q).offset.toNat ∧ (d.raw q).offset.toNat < offset + f.size := by
  have hmem : d.raw q ∈ (f.placed around offset).map Placed.record := by
    rw [← h, length_placed]
    exact List.mem_map_of_mem (List.mem_range'_1.mpr ⟨hq, hq'⟩)
  obtain ⟨x, hx, hrecord⟩ := List.mem_map.mp hmem
  obtain ⟨inner, -, hinner⟩ := inside_placed hsize x hx
  rw [← hrecord]
  exact hinner _ List.mem_cons_self

variable (hd : d.WellLinked) {rows : Array Outline}
include hd

/-- Along the links of a forest the tree writes the lines of its records, each as far
below `base` records as there are more than these around it. -/
theorem treeLines_places {base : Nat} : ∀ {f : Forest} {top : Bool} {i : Nat}
    {around : List UInt32} {offset fuel level : Nat},
    Linked rows d.sibling d.firstChild true top f i → StandAt d i (f.placed around offset) →
      offset + f.size ≤ 2 ^ 32 → f.count ≤ fuel → around.length = base + level →
      depth.all (level ≤ ·) = true →
      (f.places i).flatMap (d.treeLines depth fuel level) =
        (f.placed around offset).flatMap fun x => x.print d depth (some (x.around.length - base))
  | nil, _, _, _, _, _, _, _, _, _, _, _, _ => rfl
  | single x rest, top, i, around, offset, fuel, level, ⟨_, _, hfirst, hrest⟩, hstand, hsize,
      hfuel, haround, hlevel => by
      obtain ⟨hown, hstand⟩ := standAt_cons.mp hstand
      rw [size, ← Nat.add_assoc] at hsize
      rw [count] at hfuel
      obtain ⟨fuel, rfl⟩ : ∃ n, fuel = n + 1 := Nat.exists_eq_add_one.mpr (by omega)
      have hbase : around.length - base = level := by omega
      rw [places, placed, List.flatMap_cons, List.flatMap_cons,
        treeLines_childless hown (children_eq_nil hd hfirst) hlevel,
        treeLines_places hrest hstand hsize (by omega) haround hlevel]
      simp only [hbase]
  | node r children closing rest, top, i, around, offset, fuel, level,
      ⟨hs, hfirst, hp, hs', hnone, hchildren, hrest⟩, hstand, hsize, hfuel, haround, hlevel => by
      obtain ⟨hown, hstand⟩ := standAt_cons.mp hstand
      obtain ⟨hinner, hstand⟩ := standAt_append.mp hstand
      obtain ⟨hclosing, hstand⟩ := standAt_cons.mp hstand
      rw [length_placed] at hclosing hstand
      rw [size] at hsize
      rw [count] at hfuel
      obtain ⟨fuel, rfl⟩ : ∃ n, fuel = n + 1 := Nat.exists_eq_add_one.mpr (by omega)
      have hbase : around.length - base = level := by omega
      have hmore : (UInt32.ofNat offset :: around).length = base + (level + 1) := by
        rw [List.length_cons]
        omega
      have hbelow : (if depth.all (level < ·) then
          (d.children i).flatMap (d.treeLines depth fuel (level + 1)) else []) =
          (children.placed (UInt32.ofNat offset :: around) (offset + r.size)).flatMap
            fun x => x.print d depth (some (x.around.length - base)) := by
        cases hdeeper : depth.all (level < ·) with
        | true =>
            -- the record that closes the list is padding
            rw [if_pos rfl, children_eq hd hfirst hchildren hp hs', List.flatMap_append,
              treeLines_places hchildren hinner (by omega) (by omega) hmore hdeeper,
              List.flatMap_singleton, Nat.add_right_comm i,
              treeLines_of_padding hclosing (isPadding_closing closing _), List.append_nil]
        | false =>
            rw [if_neg Bool.false_ne_true, flatMap_print_beyond hdeeper]
            intro x hx
            have hlength := (inside_placed (by omega) x hx).length_le
            omega
      rw [places, placed, List.flatMap_cons, List.flatMap_cons, List.flatMap_append,
        List.flatMap_cons, treeLines_succ hown, isPadding_node, if_neg Bool.false_ne_true, hbelow,
        Placed.print_node, hbase, if_pos hlevel, Placed.print_closing, List.nil_append,
        List.append_assoc]
      rw [show i + 1 + children.count + 1 = i + children.count + 2 by omega] at hstand
      rw [treeLines_places hrest hstand (by omega) (by omega) haround hlevel]

theorem treeLines_node {r : Node} {children : Forest} {closing : Closing} {top : Bool}
    {i offset fuel : Nat} {around : List UInt32}
    (h : Linked rows d.sibling d.firstChild true top (node r children closing nil) i)
    (hstand : StandAt d i ((node r children closing nil).placed around offset))
    (hsize : offset + (node r children closing nil).size ≤ 2 ^ 32)
    (hfuel : (node r children closing nil).count ≤ fuel) :
    d.treeLines depth fuel 0 i = ((node r children closing nil).placed around offset).flatMap
      fun x => x.print d depth (x.level? (some (UInt32.ofNat offset))) := by
  have hlines := treeLines_places hd h hstand hsize hfuel (Nat.add_zero around.length).symm
    (all_zero_le depth)
  rw [places, places, List.flatMap_singleton] at hlines
  rw [hlines]
  refine List.flatMap_congr fun x hx => ?_
  rw [level?_node hsize x hx]

/-- The tree below a record of a forest has the lines of the records it is around. -/
theorem treeLines_start {start : UInt32} : ∀ {f : Forest} {top : Bool} {i : Nat}
    {around : List UInt32} {offset fuel q : Nat},
    Linked rows d.sibling d.firstChild true top f i → StandAt d i (f.placed around offset) →
      offset + f.size ≤ 2 ^ 32 → f.count ≤ fuel → start ∉ around → i ≤ q → q < i + f.count →
      (d.raw q).offset = start →
      d.treeLines depth fuel 0 q =
        (f.placed around offset).flatMap fun x => x.print d depth (x.level? (some start))
  | nil, _, _, _, _, _, _, _, _, _, _, _, hq, hq', _ => absurd hq (Nat.not_le.mpr hq')
  | single x rest, top, i, around, offset, fuel, q, ⟨_, _, hfirst, hrest⟩, hstand, hsize, hfuel,
      hstart, hq, hq', hoffset => by
      obtain ⟨hown, hstand⟩ := standAt_cons.mp hstand
      rw [size, ← Nat.add_assoc] at hsize
      rw [add_count_single] at hq'
      rw [count] at hfuel
      rw [placed, List.flatMap_cons]
      have hpos := x.size_pos
      by_cases hi : q = i
      · -- nothing behind the record is below it
        subst hi
        rw [hown] at hoffset
        have hat : start.toNat = offset := by
          rw [← hoffset, Draft.offset_place]
          exact UInt32.toNat_ofNat_of_lt' (by show _ < 2 ^ 32; omega)
        obtain ⟨fuel, rfl⟩ : ∃ n, fuel = n + 1 := Nat.exists_eq_add_one.mpr (by omega)
        rw [treeLines_childless hown (children_eq_nil hd hfirst) (all_zero_le depth),
          Placed.level?_own hoffset, flatMap_print_outside hsize hstart (.inl (by omega)),
          List.append_nil]
      · have hbounds := offset_of_standAt hstand hsize (by omega) hq'
        rw [hoffset] at hbounds
        have hout := notMem_cons_of_lt hstart (show offset < start.toNat by omega)
        rw [Placed.print_outside (by rwa [Draft.offset_place]), List.nil_append]
        exact treeLines_start hrest hstand hsize (by omega) hstart (by omega) hq' hoffset
  | node r children closing rest, top, i, around, offset, fuel, q,
      ⟨hs, hfirst, hp, hs', hnone, hchildren, hrest⟩, hstand, hsize, hfuel, hstart, hq, hq',
      hoffset => by
      rw [size] at hsize
      rw [add_count_node] at hq'
      rw [count] at hfuel
      have hpos := r.size_pos
      have htree : (node r children closing nil).size = r.size + children.size + 4 := rfl
      have hcount : (node r children closing nil).count = children.count + 2 := rfl
      rw [placed_node] at hstand ⊢
      obtain ⟨hstand, hbehind⟩ := standAt_append.mp hstand
      rw [length_placed, hcount, ← Nat.add_assoc] at hbehind
      rw [List.flatMap_append]
      by_cases hlater : i + children.count + 2 ≤ q
      · have hbounds := offset_of_standAt hbehind (by omega) hlater hq'
        rw [hoffset] at hbounds
        have htree_nil := @flatMap_print_outside d depth _ (node r children closing nil) _ offset
          (by omega) hstart (.inr (by omega))
        rw [htree_nil, List.nil_append]
        exact treeLines_start hrest hbehind (by omega) (by omega) hstart hlater hq' hoffset
      have hbounds := offset_of_standAt hstand (by omega) hq (by omega)
      rw [hoffset] at hbounds
      have hrest_nil := @flatMap_print_outside d depth _ rest _
        (offset + r.size + children.size + 4) (by omega) hstart (.inl (by omega))
      rw [hrest_nil, List.append_nil]
      by_cases hi : q = i
      · subst hi
        rw [(standAt_cons.mp hstand).1, Draft.offset_place] at hoffset
        subst hoffset
        have hlinked :
            Linked rows d.sibling d.firstChild true top (node r children closing nil) q :=
          ⟨hs, hfirst, hp, hs', hnone, hchildren, trivial⟩
        exact treeLines_node hd hlinked hstand (by omega) (by omega)
      obtain ⟨-, hstand⟩ := standAt_cons.mp hstand
      obtain ⟨hinner, hstand⟩ := standAt_append.mp hstand
      obtain ⟨hclosing, -⟩ := standAt_cons.mp hstand
      rw [length_placed, Nat.add_right_comm] at hclosing
      by_cases hlast : q = i + children.count + 1
      · -- the record that closes the list is padding, and nothing is below it
        subst hlast
        have hat : start.toNat = offset + r.size + children.size := by
          rw [← hoffset, hclosing, Draft.offset_place]
          exact UInt32.toNat_ofNat_of_lt' (by show _ < 2 ^ 32; omega)
        have hout := notMem_cons_of_lt hstart (show offset < start.toNat by omega)
        rw [treeLines_of_padding hclosing (isPadding_closing closing _), flatMap_print_node hout,
          flatMap_print_outside (by omega) hout (.inr (by omega))]
      · have hinside : offset + r.size ≤ (d.raw q).offset.toNat :=
          (offset_of_standAt hinner (by omega) (by omega) (by omega)).1
        rw [hoffset] at hinside
        have hout := notMem_cons_of_lt hstart (show offset < start.toNat by omega)
        rw [flatMap_print_node hout]
        exact treeLines_start hchildren hinner (by omega) (by omega) hout (by omega) (by omega)
          hoffset

end Lines

end Forest

/-! ## The tree that is read back -/

namespace DebugInfo

theorem treeText_eq {d : DebugInfo} {start : Option UInt32} {depth : Option Nat}
    {lines : List TreeLine} (h : d.tree start depth = some lines) (paint : Paint) :
    d.treeText paint start depth =
      String.join (lines.map fun line => line.painted paint ++ "\n") := by
  simp only [treeText, h, TreeLine.text_eq_painted]

theorem tree_of_find? {d : DebugInfo} {o : UInt32} {q : Nat} (h : d.find? o = some q)
    (depth : Option Nat) :
    d.tree (some o) depth = some (d.treeLines depth d.records.size 0 q) := by
  simp [tree, h]

end DebugInfo

namespace Forest

open DebugInfo

variable {f : Forest} (hsize : f.size < 2 ^ 32) (order : ByteOrder) (tables : List LineTable)

theorem contents_forest :
    (assemble order (Draft.placeAll (f.drafts 0)) tables).contents =
      (f.placed [] 0).map Placed.record := by
  rw [contents_assemble, map_record_placed, Draft.placeAll]

theorem standAt_assemble :
    StandAt (assemble order (Draft.placeAll (f.drafts 0)) tables) 0 (f.placed [] 0) := by
  have hcount : (assemble order (Draft.placeAll (f.drafts 0)) tables).records.size =
      (f.placed [] 0).length := by
    rw [size_records_assemble, Draft.placeAll, length_placeFrom, length_drafts, length_placed]
  rw [StandAt, ← contents_forest order tables, contents, List.range_eq_range', hcount]

include hsize

theorem pairwise_offset_assemble :
    ((assemble order (Draft.placeAll (f.drafts 0)) tables).contents.map
      RawRecord.offset).Pairwise (· < ·) := by
  have hbytes : (Draft.encodeAll order (f.drafts 0)).length < 2 ^ 32 := by
    rwa [Draft.length_encodeAll, sizeAll_drafts]
  rw [contents, List.map_map, List.pairwise_map]
  refine List.pairwise_lt_range.imp_of_mem fun _ hj hij => ?_
  exact offset_lt_assemble (Draft.tiles_placeAll order _) hbytes hij (List.mem_range.mp hj)

/-- The tree shows what the forest says is to be shown. -/
theorem tree_assemble (hroots : f.Rooted) {start : Option UInt32}
    (hstart : ∀ o ∈ start, ∃ r ∈ (assemble order (Draft.placeAll (f.drafts 0)) tables).contents,
      r.offset = o) (depth : Option Nat) :
    (assemble order (Draft.placeAll (f.drafts 0)) tables).tree start depth =
      some (f.listing (assemble order (Draft.placeAll (f.drafts 0)) tables).attributeText start
        depth) := by
  have hbytes : (Draft.encodeAll order (f.drafts 0)).length < 2 ^ 32 := by
    rwa [Draft.length_encodeAll, sizeAll_drafts]
  have hcount : (assemble order (Draft.placeAll (f.drafts 0)) tables).records.size = f.count := by
    rw [size_records_assemble, Draft.placeAll, length_placeFrom, length_drafts]
  have hlinks := @wellLinked_assemble order (Draft.placeAll (f.drafts 0)) tables
  have hlinked := linked_assemble hsize order tables
  have hstand := @standAt_assemble f order tables
  rw [listing_eq]
  cases start with
  | none =>
      rw [tree, roots_assemble hsize order tables hroots]
      refine congrArg some ?_
      exact treeLines_places hlinks hlinked hstand (by omega) (Nat.le_of_eq hcount.symm)
        (Nat.zero_add 0).symm (all_zero_le depth)
  | some o =>
      obtain ⟨r, hr, hoffset⟩ := hstart o rfl
      rw [contents_assemble] at hr
      obtain ⟨q, hq⟩ := List.mem_iff_getElem?.mp hr
      have hfind : (assemble order (Draft.placeAll (f.drafts 0)) tables).find? o = some q :=
        (find?_assemble_eq_some_iff (Draft.tiles_placeAll order _) hbytes).mpr ⟨r, hq, hoffset⟩
      have hlt : q < f.count := by
        have hlength := (List.getElem?_eq_some_iff.mp hq).1
        rwa [Draft.placeAll, length_placeFrom, length_drafts] at hlength
      rw [tree_of_find? hfind]
      refine congrArg some (treeLines_start hlinks hlinked hstand (by omega)
        (Nat.le_of_eq hcount.symm) List.not_mem_nil (Nat.zero_le q) (by omega) ?_)
      rw [raw_assemble hq, hoffset]

end Forest

namespace DebugInfo

/-- The tree of a forest that is read back.  The records are listed once, in the order of their
offsets; those that are not padding are shown, and which of them from a start on and down to a
depth, and how far indented, is as the forest says. -/
theorem tree_forest (f : Forest) (hroots : f.Rooted) {order : ByteOrder}
    (hsize : (Draft.encodeAll order (f.drafts 0)).length < 2 ^ 32) {line : Option (List UInt8)}
    {tables : List LineTable} (hline : lineTablesOf order line = .ok tables) :
    ∃ d, decode order (Draft.encodeAll order (f.drafts 0)) line = .ok d ∧
      d.contents = (f.placed [] 0).map Forest.Placed.record ∧
      (d.contents.map RawRecord.offset).Pairwise (· < ·) ∧
      (f.shown none).map Forest.Shown.record = d.contents.filter (!·.outline.isPadding) ∧
      ∀ start depth, (∀ o ∈ start, ∃ r ∈ d.contents, r.offset = o) →
        d.tree start depth = some (f.listing d.attributeText start depth) ∧
        ∀ paint, (RecordCommand.output paint d (.tree start depth)).text =
          String.join ((f.listing d.attributeText start depth).map fun line =>
            line.painted paint ++ "\n") := by
  have hbytes : f.size < 2 ^ 32 := by rwa [Draft.length_encodeAll, Forest.sizeAll_drafts] at hsize
  have hcontents := @Forest.contents_forest f order tables
  refine ⟨assemble order (Draft.placeAll (f.drafts 0)) tables,
    decode_eq_ok_iff.mpr ⟨_, tables, Draft.readAll_encodeAll order _, hline, rfl⟩, hcontents,
    Forest.pairwise_offset_assemble hbytes order tables, ?_, ?_⟩
  · rw [Forest.map_record_shown, hcontents]
  · intro start depth hstart
    have htree := Forest.tree_assemble hbytes order tables hroots hstart depth
    exact ⟨htree, treeText_eq htree⟩

end DebugInfo

namespace Forest

def typeValue : NamedValue where
  rawName := 0x55
  form := .data2
  value := .data2 7
  form_eq := rfl
  fits := trivial

/-- Two lists, one in the other, in a record with a type. -/
def nestedForest : Forest :=
  .node
    { tag := 0x16, before := [typeValue], after := [], tag_ne := by decide
      before_ne := by decide, size_lt := by decide }
    DebugInfo.sampleForest { length := 0, length_le := UInt32.zero_le } .nil

end Forest

namespace DebugInfo

theorem tree_nestedForest : Forest.nestedForest.Rooted ∧
    (Draft.encodeAll .big (Forest.nestedForest.drafts 0)).length < 2 ^ 32 ∧
    lineTablesOf .big none = .ok [] ∧
    ∃ d, decode .big (Draft.encodeAll .big (Forest.nestedForest.drafts 0)) none = .ok d ∧
      d.tree none none = some
        [.heading 0 0 "DW_TAG_typedef", .property 0 "DW_AT_fund_type" "0x7 (int)",
          .heading 1 16 "DW_TAG_structure_type", .heading 2 35 "DW_TAG_structure_type",
          .heading 1 51 "DW_TAG_structure_type"] ∧
      d.tree none (some 1) = some
        [.heading 0 0 "DW_TAG_typedef", .property 0 "DW_AT_fund_type" "0x7 (int)",
          .heading 1 16 "DW_TAG_structure_type", .heading 1 51 "DW_TAG_structure_type"] ∧
      d.tree (some 16) none = some
        [.heading 0 16 "DW_TAG_structure_type", .heading 1 35 "DW_TAG_structure_type"] := by
  have hsize : (Draft.encodeAll .big (Forest.nestedForest.drafts 0)).length < 2 ^ 32 := by
    decide +kernel
  have hline : lineTablesOf .big none = .ok [] := rfl
  obtain ⟨d, hd, hcontents, -, -, htree⟩ := tree_forest Forest.nestedForest trivial hsize hline
  refine ⟨trivial, hsize, hline, d, hd, ?_, ?_, ?_⟩
  · exact (htree none none (fun o ho => by cases ho)).1
  · exact (htree none (some 1) (fun o ho => by cases ho)).1
  · refine (htree (some 16) none fun o ho => ?_).1
    cases ho
    rw [hcontents]
    exact ⟨_, List.mem_of_getElem? (i := 1) rfl, rfl⟩

end DebugInfo

end DwarfOne
