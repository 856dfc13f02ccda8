/-
# `Image.Error` — why an image cannot be loaded

A file may be missing, end before its headers or tables do, or not be a
32-bit ELF image at all.
-/
import DwarfOne.Bytes.Cursor

namespace DwarfOne

/-- The file ends too early. -/
inductive ReadFailure
  /-- Too short even for the mark at its start. -/
  | noMagic (size : Nat)
  | noHeader
  | truncated (cause : OutOfBounds)
  deriving DecidableEq, Repr

/-- The file is something else. -/
inductive HeaderFault
  | magic
  | fileClass (value : UInt8)
  | encoding (value : UInt8)
  | version (value : UInt8)
  | programHeaderSize (size : UInt16)
  | sectionHeaderSize (size : UInt16)
  deriving DecidableEq, Repr

inductive ImageError
  /-- The system's own words for why the file cannot be opened. -/
  | openFailed (path cause : String)
  | readFailed (cause : ReadFailure)
  | invalidHeader (fault : HeaderFault)
  deriving DecidableEq, Repr

def ReadFailure.message : ReadFailure → String
  | .noMagic size => "file is only " ++ Numeral.decimal size ++ " bytes"
  | .noHeader => "file is too small to hold an ELF header"
  | .truncated cause => cause.message

def HeaderFault.message : HeaderFault → String
  | .magic => "not an ELF file (bad magic)"
  | .fileClass value =>
      "only 32-bit ELF files are supported (class " ++ Numeral.decimal value.toNat ++ ")"
  | .encoding value => "bad data encoding: " ++ Numeral.decimal value.toNat
  | .version value => "bad elf version: " ++ Numeral.decimal value.toNat
  | .programHeaderSize size => "bad program header size " ++ Numeral.decimal size.toNat
  | .sectionHeaderSize size => "bad section header size " ++ Numeral.decimal size.toNat

def ImageError.message : ImageError → String
  | .openFailed path cause => "couldn't open " ++ path ++ ": " ++ cause
  | .readFailed cause => "couldn't read ELF data: " ++ cause.message
  | .invalidHeader fault => "invalid ELF header: " ++ fault.message

def ImageError.ofOutOfBounds (cause : OutOfBounds) : ImageError :=
  .readFailed (.truncated cause)

end DwarfOne
