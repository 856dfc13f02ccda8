/-
# `Payload.Subscript` — the dimensions of an array

Subscript data is a list of items: bounds for the dimensions, outermost
first, and the element type.  The low three bits of a bound item's format
byte say how its index type and its two bounds are given.
-/
import DwarfOne.Payload.Location
import DwarfOne.Payload.TypeRef

namespace DwarfOne

inductive Bound
  | constant (n : UInt32)
  /-- Computed when the program runs. -/
  | location (location : Location)
  deriving DecidableEq, Repr

def Bound.read (isLocation : Bool) : Reader PayloadError Bound := do
  if isLocation then
    let order := (← get).order
    let size ← Reader.half
    let block ← Reader.block size.toNat
    return .location (← Location.decode order block)
  else
    return .constant (← Reader.word)

structure Subscript where
  indexType : TypeRef
  low : Bound
  high : Bound
  deriving DecidableEq, Repr

namespace Subscript

/-- The number of elements, known only if both bounds are constant. -/
def dimension? (s : Subscript) : Option UInt32 :=
  match s.low, s.high with
  | .constant low, .constant high => some (high - low + 1)
  | _, _ => none

/-- What follows a bound item's format byte. -/
def read (format : UInt8) : Reader PayloadError Subscript := do
  let indexType ←
    if format &&& 4 != 0 then TypeRef.user <$> Reader.word
    else TypeRef.fundamental <$> Reader.half
  let low ← Bound.read (format &&& 2 != 0)
  let high ← Bound.read (format &&& 1 != 0)
  return { indexType, low, high }

end Subscript

/-- One item of subscript data. -/
inductive SubscriptItem
  | bounds (subscript : Subscript)
  | element (ty : TypeRef)
  deriving DecidableEq, Repr

namespace SubscriptItem

/-- What follows an element item's format byte: an attribute that gives a
type. -/
def readElement : Reader PayloadError TypeRef := do
  let c ← get
  let rawName ← Reader.half
  match Form.ofName? rawName with
  | none => Reader.fail (.unknownForm (rawName &&& 0xf))
  | some form =>
      let value ← AttributeValue.read form
      TypeRef.decode c.order { offset := UInt32.ofNat c.offset, rawName, value }

def read : Reader PayloadError SubscriptItem := do
  let format ← Reader.byte
  if format = 8 then return .element (← readElement)
  else if format < 8 then return .bounds (← Subscript.read format)
  else Reader.fail (.unknownSubscriptFormat format)

end SubscriptItem

structure SubscriptData where
  element : Option TypeRef
  subscripts : List Subscript
  deriving DecidableEq, Repr

namespace SubscriptData

/-- The bounds in order; of several element types the last counts. -/
def ofItems (items : List SubscriptItem) : SubscriptData where
  element := items.foldl
    (fun found item => match item with
      | .element ty => some ty
      | .bounds _ => found) none
  subscripts := items.filterMap fun
    | .bounds subscript => some subscript
    | .element _ => none

def decode (order : ByteOrder) (block : List UInt8) : Except PayloadError SubscriptData :=
  ofItems <$> (Reader.toEnd SubscriptItem.read).on (.ofBytes order block 0)

end SubscriptData

end DwarfOne
