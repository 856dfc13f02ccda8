/-
# `Record.Attribute` — attributes and their values

An attribute is a name and a value.  The name's low four bits are the form,
which alone decides how many bytes the value takes; a reader can therefore
step over attributes it does not know.
-/
import DwarfOne.Record.AttributeName
import DwarfOne.Payload.Error

namespace DwarfOne

/-- How a value is laid out. -/
inductive Form
  | addr
  | ref
  /-- A block after its length in two bytes. -/
  | block2
  /-- A block after its length in four bytes. -/
  | block4
  | data2
  | data4
  | data8
  /-- Text up to a zero byte. -/
  | string
  deriving DecidableEq, Repr

namespace Form

/-- The form in the low four bits of an attribute's name. -/
def ofName? (rawName : UInt16) : Option Form :=
  match rawName &&& 0xf with
  | 1 => some .addr
  | 2 => some .ref
  | 3 => some .block2
  | 4 => some .block4
  | 5 => some .data2
  | 6 => some .data4
  | 7 => some .data8
  | 8 => some .string
  | _ => none

end Form

inductive AttributeValue
  | address (value : UInt32)
  /-- The offset of another record. -/
  | reference (offset : UInt32)
  | block (bytes : List UInt8)
  | data2 (value : UInt16)
  | data4 (value : UInt32)
  | data8 (value : UInt64)
  | string (text : String)
  deriving DecidableEq, Repr

namespace AttributeValue

/-- The value that the next bytes hold in a form. -/
def read : Form → Reader OutOfBounds AttributeValue
  | .addr => .address <$> Reader.word
  | .ref => .reference <$> Reader.word
  | .block2 => do
      let size ← Reader.half
      .block <$> Reader.block size.toNat
  | .block4 => do
      let size ← Reader.word
      .block <$> Reader.block size.toNat
  | .data2 => .data2 <$> Reader.half
  | .data4 => .data4 <$> Reader.word
  | .data8 => .data8 <$> Reader.xword
  | .string => .string <$> Reader.string

def kind : AttributeValue → String
  | .address _ => "address"
  | .reference _ => "reference"
  | .block _ => "block"
  | .data2 _ => "data2"
  | .data4 _ => "data4"
  | .data8 _ => "data8"
  | .string _ => "string"

def asBlock : AttributeValue → Except PayloadError (List UInt8)
  | .block bytes => .ok bytes
  | value => .error (.wrongKind "a block" value.kind)

def asOffset : AttributeValue → Except PayloadError UInt32
  | .reference offset => .ok offset
  | value => .error (.wrongKind "a reference" value.kind)

/-- Addresses, references and data of at most four bytes are numbers. -/
def asNumber : AttributeValue → Except PayloadError UInt32
  | .address value => .ok value
  | .reference value => .ok value
  | .data4 value => .ok value
  | .data2 value => .ok value.toUInt32
  | value => .error (.wrongKind "a number" value.kind)

def asText : AttributeValue → Except PayloadError String
  | .string text => .ok text
  | value => .error (.wrongKind "a string" value.kind)

/-- Two hexadecimal digits for each byte, separated by spaces. -/
def bytesText (bytes : List UInt8) : String :=
  " ".intercalate (bytes.map fun b => Numeral.zeroPadded 2 (Numeral.hex b.toNat))

def text : AttributeValue → String
  | .address value => "0x" ++ Numeral.zeroPadded 8 (Numeral.hex value.toNat)
  | .reference offset => Numeral.offset offset.toNat
  | .block bytes => "[" ++ bytesText bytes ++ "]"
  | .data2 value => Numeral.decimal value.toNat
  | .data4 value => Numeral.decimal value.toNat
  | .data8 value => Numeral.decimal value.toNat
  | .string text => text

end AttributeValue

structure Attribute where
  /-- Where the attribute's name starts. -/
  offset : UInt32
  /-- The name with the form in its low four bits. -/
  rawName : UInt16
  value : AttributeValue
  deriving DecidableEq, Repr

namespace Attribute

def name (a : Attribute) : AttributeName :=
  AttributeName.ofValue a.rawName

def form? (a : Attribute) : Option Form :=
  Form.ofName? a.rawName

end Attribute

end DwarfOne
