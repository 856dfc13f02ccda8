/-
# `Record.Links` — the tree behind the flat list of records

Records are addressed by their place in the section.  The tree is implicit: a
record's children follow it at once, and its sibling attribute points past
them.  If the attribute points at the very next record there are no children.

Links only ever point forward, so a chain of them is never longer than the
list of records; that bound is the fuel of every walk here.
-/
import DwarfOne.Record.Attribute

namespace DwarfOne

/-- What linking has to know of a record. -/
structure Outline where
  offset : UInt32
  isPadding : Bool
  /-- Where the sibling attribute points. -/
  target : Option UInt32
  deriving DecidableEq, Repr

/-- The links of every record, by its place. -/
structure Links where
  /-- The next record of the same level. -/
  sibling : Array (Option Nat)
  firstChild : Array (Option Nat)
  parent : Array (Option Nat)
  /-- How many records follow on the same level. -/
  siblingCount : Array Nat
  childCount : Array Nat
  deriving DecidableEq, Repr

namespace Links

/-- The records met from a place on by following links. -/
def follow (next : Array (Option Nat)) : Nat → Option Nat → List Nat
  | 0, _ => []
  | _, none => []
  | fuel + 1, some i => i :: follow next fuel (next.getD i none)

/-- The records met from a place on. -/
def chain (next : Array (Option Nat)) (start : Option Nat) : List Nat :=
  follow next next.size start

/-- The sibling and the first child that a record's own attribute gives. -/
def own (rows : Array Outline) (find : UInt32 → Option Nat) (i : Nat) :
    Option Nat × Option Nat :=
  match rows[i]?, rows[i + 1]? with
  | some row, some next =>
      if row.isPadding then (none, none)
      else
        match row.target with
        | none => (none, none)
        | some target =>
            if target = next.offset then (some (i + 1), none)
            else ((find target).filter (i + 1 < ·), some (i + 1))
  | _, _ => (none, none)

/-- Follows one child list.  Padding has no sibling attribute and would end
the list early, so it is linked to the record after it, unless the list's
owner is followed by that record. -/
def bridge (rows : Array Outline) (afterOwner : Option Nat) :
    Nat → Array (Option Nat) → Option Nat → Array (Option Nat)
  | 0, sibling, _ => sibling
  | _, sibling, none => sibling
  | fuel + 1, sibling, some c =>
      let next := sibling.getD c none
      let padding := (rows[c]?.map Outline.isPadding).getD false
      if next.isNone ∧ padding ∧ c + 1 < rows.size ∧ some (c + 1) ≠ afterOwner then
        bridge rows afterOwner fuel (sibling.setIfInBounds c (some (c + 1))) (some (c + 1))
      else
        bridge rows afterOwner fuel sibling next

/-- `bridge` for the child list of every record in turn. -/
def bridgeAll (rows : Array Outline) (firstChild sibling : Array (Option Nat)) :
    Array (Option Nat) :=
  (List.range (rows.size - 1)).foldl
    (fun sibling i =>
      bridge rows (sibling.getD i none) rows.size sibling (firstChild.getD i none))
    sibling

/-- The length of the chain after each record, filled in from the back. -/
def counts (sibling : Array (Option Nat)) : Array Nat :=
  (List.range sibling.size).foldr
    (fun i counts =>
      match sibling.getD i none with
      | some s => counts.setIfInBounds i (1 + counts.getD s 0)
      | none => counts)
    (Array.replicate sibling.size 0)

/-- The record whose child list a record is in.  Should it be in several, the
last one counts. -/
def parents (firstChild sibling : Array (Option Nat)) : Array (Option Nat) :=
  (List.range sibling.size).foldl
    (fun parent i =>
      (chain sibling (firstChild.getD i none)).foldl
        (fun parent c => parent.setIfInBounds c (some i)) parent)
    (Array.replicate sibling.size none)

/-- The links of a list of records. -/
def ofOutlines (rows : Array Outline) (find : UInt32 → Option Nat) : Links :=
  let links := (Array.range rows.size).map (own rows find)
  let firstChild := links.map Prod.snd
  let sibling := bridgeAll rows firstChild (links.map Prod.fst)
  let siblingCount := counts sibling
  { sibling
    firstChild
    parent := parents firstChild sibling
    siblingCount
    childCount := firstChild.map fun
      | some c => 1 + siblingCount.getD c 0
      | none => 0 }

end Links

end DwarfOne
