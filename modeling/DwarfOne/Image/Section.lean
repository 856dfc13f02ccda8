/-
# `Image.Section` — the named parts of an image

Debug records, line tables, strings and symbols are each in a section.
-/
import DwarfOne.Bytes.Cursor
import DwarfOne.Image.Range

namespace DwarfOne

inductive SectionType
  | null
  | progBits
  | symbolTable
  | stringTable
  | relocationsWith
  | hash
  | dynamic
  | note
  | noBits
  | relocationsWithout
  | dynamicSymbolTable
  | other (value : UInt32)
  deriving DecidableEq, Repr

namespace SectionType

def ofValue (value : UInt32) : SectionType :=
  match value with
  | 0x0 => .null
  | 0x1 => .progBits
  | 0x2 => .symbolTable
  | 0x3 => .stringTable
  | 0x4 => .relocationsWith
  | 0x5 => .hash
  | 0x6 => .dynamic
  | 0x7 => .note
  | 0x8 => .noBits
  | 0x9 => .relocationsWithout
  | 0xb => .dynamicSymbolTable
  | _ => .other value

def text : SectionType → String
  | .null => "Null"
  | .progBits => "ProgBits"
  | .symbolTable => "SymbolTable"
  | .stringTable => "StringTable"
  | .relocationsWith => "RelocationsWith"
  | .hash => "Hash"
  | .dynamic => "Dynamic"
  | .note => "Note"
  | .noBits => "NoBits"
  | .relocationsWithout => "RelocationsWithout"
  | .dynamicSymbolTable => "DynamicSymbolTable"
  | .other value => "Other(" ++ Numeral.decimal value.toNat ++ ")"

end SectionType

structure SectionFlags where
  bits : UInt32
  deriving DecidableEq, Repr

namespace SectionFlags

/-- What each bit, or group of bits, is called. -/
def names : List (UInt32 × String) :=
  [(0x1, "WRITE"), (0x2, "ALLOC"), (0x4, "EXEC"), (0x10, "MERGE"), (0x20, "STRINGS"),
   (0x40, "INFO"), (0x80, "LINK"), (0x200, "GROUP"), (0x400, "TLS"), (0xf0000000, "MASKPROC")]

/-- The names of the flags that are set. -/
def text (f : SectionFlags) : String :=
  match names.filter fun (mask, _) => f.bits &&& mask != 0 with
  | [] => "none"
  | found => " ".intercalate (found.map Prod.snd)

end SectionFlags

structure Section where
  /-- Empty if the section has no name. -/
  name : String
  type : SectionType
  flags : SectionFlags
  /-- Where the bytes are in the file. -/
  file : Range
  /-- Where the bytes are in memory, at zero if they are not loaded. -/
  memory : Range
  /-- A related section, for a symbol table that of its strings. -/
  link : UInt32
  info : UInt32
  align : UInt32
  /-- Set for tables of entries. -/
  entrySize : UInt32
  nameIndex : UInt32
  deriving DecidableEq, Repr

namespace Section

/-- The smallest section header. -/
def headerSize : Nat := 40

/-- A section header.  Its name is found later. -/
def read : Reader OutOfBounds Section := do
  let nameIndex ← Reader.word
  let type ← Reader.word
  let flags ← Reader.word
  let address ← Reader.word
  let offset ← Reader.word
  let size ← Reader.word
  let link ← Reader.word
  let info ← Reader.word
  let align ← Reader.word
  let entrySize ← Reader.word
  let type := SectionType.ofValue type
  -- sections without bits take no room in the file
  let fileSize := if type = .noBits then 0 else size
  return { name := "", type, flags := ⟨flags⟩, file := ⟨offset, fileSize⟩
           memory := ⟨address, size⟩, link, info, align, entrySize, nameIndex }

/-- Whether the section's bytes are in the file. -/
def hasData (s : Section) : Bool :=
  s.type ≠ .noBits && s.file.start ≠ 0

end Section

end DwarfOne
