/-
# `Text.CharClass` — classes of characters

A class that a standard lists, such as the letters of either case, is kept as
the ranges it is made of.
-/
namespace DwarfOne

/-- Ranges of code points, both ends included. -/
structure CharClass where
  ranges : List (Nat × Nat)
  deriving DecidableEq, Repr

def CharClass.contains (k : CharClass) (c : Char) : Bool :=
  k.ranges.any fun (first, last) => first ≤ c.toNat && c.toNat ≤ last

end DwarfOne
