/-
# `Bytes.Order` — numbers from bytes, in either order

An image declares once which end of a number comes first; every number in it,
in its debug records and in its code, is laid out that way.  The value of a
byte string is a natural number here, and the readers cut it to the width of
the field.
-/
namespace DwarfOne

/-- Which end of a number comes first. -/
inductive ByteOrder
  | little
  | big
  deriving DecidableEq, Repr

namespace ByteOrder

/-- The number whose base 256 digits are the bytes, least significant first. -/
def littleValue : List UInt8 → Nat
  | [] => 0
  | b :: bs => b.toNat + 256 * littleValue bs

/-- The number the bytes stand for. -/
def value : ByteOrder → List UInt8 → Nat
  | .little, bytes => littleValue bytes
  | .big, bytes => littleValue bytes.reverse

/-- Reads the flag a caller uses for a little endian image. -/
def ofFlag (little : Bool) : ByteOrder :=
  if little then .little else .big

def isLittle : ByteOrder → Bool
  | .little => true
  | .big => false

end ByteOrder

end DwarfOne
