/-
# `Payload.Enumerator` — the values of an enumeration

An element list holds, for each enumerator in the order of declaration, its
value as a signed word and its name.
-/
import DwarfOne.Payload.Error

namespace DwarfOne

structure Enumerator where
  name : String
  value : Int
  deriving DecidableEq, Repr

namespace Enumerator

def read : Reader PayloadError Enumerator := do
  let value ← Reader.int
  let name ← Reader.string
  return { name, value }

def decodeList (order : ByteOrder) (block : List UInt8) :
    Except PayloadError (List Enumerator) :=
  (Reader.toEnd read).on (.ofBytes order block 0)

end Enumerator

end DwarfOne
