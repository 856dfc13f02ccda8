/-
# `Source.Fundamental` — how fundamental types are spelled

A user may spell them differently, `s32` for `int` say.
-/
import DwarfOne.Text.Numeral

namespace DwarfOne

/-- Each fundamental type with its spelling, at most once. -/
structure FundamentalNames where
  entries : List (UInt16 × String)
  deriving DecidableEq, Repr

namespace FundamentalNames

def default : FundamentalNames where
  entries :=
    [(0x0001, "char"), (0x0002, "signed char"), (0x0003, "unsigned char"),
     (0x0004, "short"), (0x0005, "signed short"), (0x0006, "unsigned short"),
     (0x0007, "int"), (0x0008, "signed int"), (0x0009, "unsigned int"),
     (0x000a, "long"), (0x000b, "signed long"), (0x000c, "unsigned long"),
     (0x000d, "void*"), (0x000e, "float"), (0x000f, "double"), (0x0010, "long double"),
     (0x0014, "void"), (0x0015, "bool"),
     (0x8008, "long long"), (0x8208, "unsigned long long")]

def name (names : FundamentalNames) (id : UInt16) : String :=
  (names.entries.lookup id).getD
    ("<unknown type " ++ Numeral.upperOffset id.toNat ++ ">")

/-- The entries with one spelling changed, or added at the end. -/
def setEntry (id : UInt16) (name : String) : List (UInt16 × String) → List (UInt16 × String)
  | [] => [(id, name)]
  | (other, old) :: rest =>
      if other = id then (id, name) :: rest else (other, old) :: setEntry id name rest

def set (names : FundamentalNames) (id : UInt16) (name : String) : FundamentalNames :=
  ⟨setEntry id name names.entries⟩

end FundamentalNames

end DwarfOne
