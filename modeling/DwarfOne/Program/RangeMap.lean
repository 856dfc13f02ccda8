/-
# `Program.RangeMap` — what an address belongs to

Ranges may overlap; an address belongs to the range put in last.  Any map that keeps to this will
do, so it is left open which one a program is built with.
-/
namespace DwarfOne

/-- A kind of map that is filled with ranges of addresses. -/
class RangeMap (α : Type) where
  Map : Type
  empty : Map
  /-- Puts in the range from `low` up to `high`. -/
  insert (m : Map) (low high : UInt32) (value : α) : Map
  get? (m : Map) (place : UInt32) : Option α
  get?_empty (place : UInt32) : get? empty place = none
  /-- The range put in last counts. -/
  get?_insert {low high : UInt32} (h : low < high) (m : Map) (value : α) (place : UInt32) :
    get? (insert m low high value) place =
      if low ≤ place ∧ place < high then some value else get? m place

/-- The plainest of them: a list, with the range put in last at its head. -/
instance RangeMap.list {α : Type} : RangeMap α where
  Map := List (UInt32 × UInt32 × α)
  empty := []
  insert m low high value := (low, high, value) :: m
  get? m place := (m.find? fun r => r.1 ≤ place ∧ place < r.2.1).map fun r => r.2.2
  get?_empty _ := rfl
  get?_insert {low high} _ m value place := by
    by_cases h : low ≤ place ∧ place < high <;> simp [h]

end DwarfOne
