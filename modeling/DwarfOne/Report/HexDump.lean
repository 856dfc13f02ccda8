/-
# `Report.HexDump` — bytes of a segment

Sixteen bytes to a row, in hexadecimal and as the characters they stand for.
-/
import DwarfOne.Image.Basic
import DwarfOne.Text.Style

namespace DwarfOne

/-- What each row starts with. -/
inductive HexLabels
  | none
  /-- The address of its first byte. -/
  | address
  /-- How far its first byte is from the first of all. -/
  | zero
  deriving DecidableEq, Repr

namespace HexDump

def rowSize : Nat := 16

/-- A row before it is styled. -/
structure Row where
  label : String
  hex : String
  ascii : String
  deriving DecidableEq, Repr

/-- A byte as a character, if it is one that shows. -/
def printable (b : UInt8) : Char :=
  if 0x20 ≤ b ∧ b ≤ 0x7e then Char.ofNat b.toNat else '.'

/-- The two digits of each byte, as wide as a full row. -/
def digits (bytes : List UInt8) : String :=
  Numeral.padRight (3 * rowSize - 1)
    (" ".intercalate (bytes.map fun b => Numeral.zeroPadded 2 (Numeral.hex b.toNat)))

def label (labels : HexLabels) (address delta : UInt32) : String :=
  let eight (n : UInt32) : String := Numeral.zeroPadded 8 (Numeral.hex n.toNat) ++ "  "
  match labels with
  | .none => ""
  | .address => eight (address + delta)
  | .zero => eight delta

/-- Rows of bytes, of which the first is `delta` on from the address. -/
def rowsFrom (labels : HexLabels) (address : UInt32) : Nat → UInt32 → List UInt8 → List Row
  | 0, _, _ => []
  | _ + 1, _, [] => []
  | fuel + 1, delta, bytes =>
      let row := bytes.take rowSize
      { label := label labels address delta, hex := digits row
        ascii := String.ofList (row.map printable) } ::
        rowsFrom labels address fuel (delta + UInt32.ofNat rowSize) (bytes.drop rowSize)

def rows (labels : HexLabels) (address : UInt32) (bytes : List UInt8) : List Row :=
  rowsFrom labels address bytes.length 0 bytes

def Row.text (paint : Paint) (r : Row) : String :=
  paint .hexOffset r.label ++ paint .hexBytes r.hex ++ "  " ++ paint .hexAscii r.ascii

end HexDump

/-- The text of a dump and the warnings that go with it. -/
def Image.hexDump (paint : Paint) (image : Image) (address : UInt32) (count : Nat)
    (labels : HexLabels) : String × List String :=
  match image.dataAt? address with
  | none =>
      ("", ["couldn't find a load segment with file bytes for " ++ Numeral.offset address.toNat])
  | some bytes =>
      let rows := HexDump.rows labels address (bytes.take count)
      let short :=
        "only " ++ Numeral.decimal bytes.length ++ " bytes are available at " ++
          Numeral.offset address.toNat
      (String.join (rows.map fun r => r.text paint ++ "\n"),
       if bytes.length < count then [short] else [])

end DwarfOne
