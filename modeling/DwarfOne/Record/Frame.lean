/-
# `Record.Frame` — cutting the debug section into records

A record is a length, a tag and attributes up to that length.  A record too
short for a tag is null.  The section is walked twice: `survey` steps over
the attributes and counts them, `readAll` reads their values.  Both cut the
section in the same way, so a section that can be surveyed can be read.
-/
import DwarfOne.Record.Attribute
import DwarfOne.Record.Error
import DwarfOne.Record.Tag

namespace DwarfOne

/-- One record as it lies in the section. -/
structure Frame where
  /-- Where the record starts. -/
  start : Nat
  /-- The length the record claims. -/
  length : UInt32
  /-- Zero in a record too short to have one. -/
  tag : UInt16
  /-- What follows the tag, up to the end of the record. -/
  body : Cursor

namespace Frame

/-- Only records of at least eight bytes with a tag other than padding have
attributes. -/
def hasAttributes (f : Frame) : Bool :=
  8 ≤ f.length && f.tag != 0

/-- The next record, unless fewer bytes are left than its length takes. -/
def next? : Reader DebugError (Option Frame) := do
  let c ← get
  if c.remaining < 4 then return none
  let length ← Reader.word
  -- a null record may claim less than its own length field
  let size := max length.toNat 4
  if c.remaining < size then
    Reader.fail (.recordOverrun c.offset length c.stop)
  else
    let tag ← if 6 ≤ length then Reader.half else pure 0
    set (c.advance size)
    return some { start := c.offset, length, tag, body := (c.limit size).advance 6 }

end Frame

/-! ## Attributes -/

/-- The form of an attribute whose name has just been read at `offset`. -/
def knownForm (rawName : UInt16) (offset : Nat) : Except DebugError Form :=
  match Form.ofName? rawName with
  | some form => .ok form
  | none => .error (.unknownForm rawName offset (rawName &&& 0xf))

namespace Attribute

/-- Steps over a payload of known size.  The step is taken before its end is
looked at, and the bytes that are missing are the ones the failure names. -/
def skipBytes (size : Nat) : Reader OutOfBounds Unit := fun c =>
  if c.offset + size ≤ c.stop then .ok () (c.advance size)
  else .error ⟨c.stop, c.offset + size - c.stop⟩ (c.advance size)

def skipValue : Form → Reader OutOfBounds Unit
  | .addr | .ref | .data4 => skipBytes 4
  | .data2 => skipBytes 2
  | .data8 => skipBytes 8
  | .block2 => do
      let size ← Reader.half
      discard (Reader.block size.toNat)
  | .block4 => do
      let size ← Reader.word
      discard (Reader.block size.toNat)
  | .string => discard Reader.string

/-- Steps over one attribute. -/
def skip : Reader DebugError Unit := do
  let c ← get
  let rawName ← Reader.half
  let form ← knownForm rawName c.offset
  skipValue form

/-- The next attribute. -/
def read : Reader DebugError Attribute := do
  let c ← get
  let rawName ← Reader.half
  let form ← knownForm rawName c.offset
  let value ← AttributeValue.read form
  return { offset := UInt32.ofNat c.offset, rawName, value }

end Attribute

/-! ## The two walks -/

/-- A record's header and its attributes. -/
structure RawRecord where
  offset : UInt32
  length : UInt32
  tag : Tag
  attributes : List Attribute
  deriving DecidableEq, Repr

namespace Frame

/-- The number of attributes. -/
def count (f : Frame) : Except DebugError Nat :=
  if f.hasAttributes then List.length <$> (Reader.toEnd Attribute.skip).on f.body
  else .ok 0

def read (f : Frame) : Except DebugError RawRecord := do
  let attributes ←
    if f.hasAttributes then (Reader.toEnd Attribute.read).on f.body
    else .ok []
  return { offset := UInt32.ofNat f.start, length := f.length
           tag := Tag.ofValue f.tag, attributes }

end Frame

/-- The number of attributes of each record. -/
def survey (order : ByteOrder) (bytes : List UInt8) : Except DebugError (List Nat) :=
  (Reader.collect do
    match ← Frame.next? with
    | none => return none
    | some frame => return some (← frame.count)).on (.ofBytes order bytes 0)

/-- The records of the section, in order. -/
def RawRecord.readAll (order : ByteOrder) (bytes : List UInt8) :
    Except DebugError (List RawRecord) :=
  (Reader.collect do
    match ← Frame.next? with
    | none => return none
    | some frame => return some (← frame.read)).on (.ofBytes order bytes 0)

end DwarfOne
