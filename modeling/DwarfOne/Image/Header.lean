/-
# `Image.Header` — the header of an ELF file

Sixteen bytes identify the file and fix its byte order; everything after is
read in that order.
-/
import DwarfOne.Image.Error

namespace DwarfOne

namespace Image

/-- The size of the header. -/
def headerSize : Nat := 52

/-- Checks the identification bytes, the first fault first, and gives the
byte order they declare. -/
def identify (bytes : Array UInt8) : Except ImageError ByteOrder := do
  let at_ (i : Nat) : UInt8 := bytes.getD i 0
  if bytes.size < 4 then throw (.readFailed (.noMagic bytes.size))
  if bytes.extract 0 4 ≠ #[0x7f, 0x45, 0x4c, 0x46] then throw (.invalidHeader .magic)
  if bytes.size < headerSize then throw (.readFailed .noHeader)
  if at_ 4 ≠ 1 then throw (.invalidHeader (.fileClass (at_ 4)))
  if at_ 5 ≠ 1 ∧ at_ 5 ≠ 2 then throw (.invalidHeader (.encoding (at_ 5)))
  if at_ 6 ≠ 1 then throw (.invalidHeader (.version (at_ 6)))
  return .ofFlag (at_ 5 = 1)

end Image

structure Header where
  osabi : UInt8
  abiVersion : UInt8
  fileType : UInt16
  machine : UInt16
  version : UInt32
  /-- The address the program starts at. -/
  entry : UInt32
  programHeaderOffset : UInt32
  sectionHeaderOffset : UInt32
  flags : UInt32
  headerSize : UInt16
  programHeaderSize : UInt16
  programHeaderCount : UInt16
  sectionHeaderSize : UInt16
  sectionHeaderCount : UInt16
  /-- The section that holds the names of the sections. -/
  nameTableIndex : UInt16
  deriving DecidableEq, Repr

namespace Header

/-- The fields past the identification. -/
def read (osabi abiVersion : UInt8) : Reader OutOfBounds Header := do
  let fileType ← Reader.half
  let machine ← Reader.half
  let version ← Reader.word
  let entry ← Reader.word
  let programHeaderOffset ← Reader.word
  let sectionHeaderOffset ← Reader.word
  let flags ← Reader.word
  let headerSize ← Reader.half
  let programHeaderSize ← Reader.half
  let programHeaderCount ← Reader.half
  let sectionHeaderSize ← Reader.half
  let sectionHeaderCount ← Reader.half
  let nameTableIndex ← Reader.half
  return { osabi, abiVersion, fileType, machine, version, entry, programHeaderOffset,
           sectionHeaderOffset, flags, headerSize, programHeaderSize, programHeaderCount,
           sectionHeaderSize, sectionHeaderCount, nameTableIndex }

def ofBytes (order : ByteOrder) (bytes : Array UInt8) : Except OutOfBounds Header :=
  (read (bytes.getD 7 0) (bytes.getD 8 0)).on (.window order bytes 16 36)

def typeName (h : Header) : String :=
  match h.fileType with
  | 0 => "none"
  | 1 => "relocatable"
  | 2 => "executable"
  | 3 => "shared object"
  | 4 => "core"
  | _ => "unknown"

def machineName (h : Header) : String :=
  match h.machine with
  | 0 => "none"
  | 3 => "x86"
  | 8 => "MIPS"
  | 20 => "PowerPC"
  | 21 => "PowerPC 64"
  | 40 => "ARM"
  | 42 => "SuperH"
  | 62 => "x86-64"
  | machine => "machine " ++ Numeral.decimal machine.toNat

end Header

end DwarfOne
