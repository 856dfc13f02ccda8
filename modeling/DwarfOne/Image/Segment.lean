/-
# `Image.Segment` — what a loader puts into memory

A segment's bytes in the file may be fewer than those it takes in memory; the
rest is filled with zeros and has no place in the file.
-/
import DwarfOne.Bytes.Cursor
import DwarfOne.Image.Range

namespace DwarfOne

inductive SegmentType
  | null
  | load
  | dynamic
  | interpreter
  | note
  | shlib
  | phdr
  | tls
  | other (value : UInt32)
  deriving DecidableEq, Repr

namespace SegmentType

def ofValue (value : UInt32) : SegmentType :=
  match value with
  | 0 => .null
  | 1 => .load
  | 2 => .dynamic
  | 3 => .interpreter
  | 4 => .note
  | 5 => .shlib
  | 6 => .phdr
  | 7 => .tls
  | _ => .other value

def text : SegmentType → String
  | .null => "Null"
  | .load => "Load"
  | .dynamic => "Dynamic"
  | .interpreter => "Interpreter"
  | .note => "Note"
  | .shlib => "Shlib"
  | .phdr => "Phdr"
  | .tls => "Tls"
  | .other value => "Other(" ++ Numeral.decimal value.toNat ++ ")"

end SegmentType

/-- The access a segment is mapped with. -/
structure SegmentFlags where
  bits : UInt32
  deriving DecidableEq, Repr

namespace SegmentFlags

def executable (f : SegmentFlags) : Bool := f.bits &&& 1 != 0

def writeable (f : SegmentFlags) : Bool := f.bits &&& 2 != 0

def readable (f : SegmentFlags) : Bool := f.bits &&& 4 != 0

/-- `x-r`. -/
def text (f : SegmentFlags) : String :=
  String.ofList [if f.executable then 'x' else '-', if f.writeable then 'w' else '-',
    if f.readable then 'r' else '-']

end SegmentFlags

structure Segment where
  type : SegmentType
  /-- Where the bytes are in the file. -/
  file : Range
  /-- Where the bytes are in memory. -/
  memory : Range
  physical : UInt32
  flags : SegmentFlags
  align : UInt32
  deriving DecidableEq, Repr

namespace Segment

/-- The smallest program header. -/
def headerSize : Nat := 32

def read : Reader OutOfBounds Segment := do
  let type ← Reader.word
  let offset ← Reader.word
  let address ← Reader.word
  let physical ← Reader.word
  let fileSize ← Reader.word
  let memorySize ← Reader.word
  let flags ← Reader.word
  let align ← Reader.word
  return { type := .ofValue type, file := ⟨offset, fileSize⟩, memory := ⟨address, memorySize⟩
           physical, flags := ⟨flags⟩, align }

/-- The place in the file of an address in the segment. -/
def offset? (s : Segment) (address : UInt32) : Option UInt32 :=
  if s.memory.contains address ∧ address - s.memory.start < s.file.size then
    some (s.file.start + (address - s.memory.start))
  else none

end Segment

end DwarfOne
