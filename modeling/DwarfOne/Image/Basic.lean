/-
# `Image.Basic` — loading an image

Everything an image's tables say of bytes in the file is checked while it is
loaded, so looking at those bytes later cannot fail.  Faults in names and
symbols do not keep an image from being loaded; they leave warnings.
-/
import DwarfOne.Image.Header
import DwarfOne.Image.Segment
import DwarfOne.Image.Section
import DwarfOne.Image.Symbol

namespace DwarfOne

/-- A fault that leaves a name or the symbols out. -/
inductive LoadWarning
  | badNameTable (index : UInt16)
  | unreadableString (home index : UInt32) (cause : OutOfBounds)
  | unreadableSymbol (offset : Nat) (cause : OutOfBounds)
  deriving DecidableEq, Repr

def LoadWarning.message : LoadWarning → String
  | .badNameTable index => "bad section name table index: " ++ Numeral.decimal index.toNat
  | .unreadableString home index cause =>
      "failed to read string " ++ Numeral.decimal index.toNat ++ " in section " ++
        Numeral.decimal home.toNat ++ ": " ++ cause.message
  | .unreadableSymbol offset cause =>
      "failed to read symbol at offset " ++ Numeral.offset offset ++ ": " ++
        (ImageError.ofOutOfBounds cause).message

structure Image where
  bytes : Array UInt8
  order : ByteOrder
  header : Header
  segments : Array Segment
  sections : Array Section
  symbols : Option SymbolTable
  warnings : List LoadWarning
  deriving DecidableEq, Repr

namespace Image

/-- The bytes of a stretch of the file. -/
def slice (bytes : Array UInt8) (offset size : Nat) : Except OutOfBounds (List UInt8) :=
  if offset + size ≤ bytes.size then .ok (bytes.extract offset (offset + size)).toList
  else .error ⟨offset, size⟩

/-! ## Sections and addresses -/

def section? (image : Image) (index : UInt32) : Option Section :=
  image.sections[index.toNat]?

/-- The first section with a name. -/
def sectionIndex? (image : Image) (name : String) : Option UInt32 :=
  (image.sections.findIdx? (·.name = name)).map UInt32.ofNat

/-- A section's bytes, if it has any in the file. -/
def sectionData? (image : Image) (index : UInt32) : Option (List UInt8) := do
  let s ← image.section? index
  if s.hasData then
    (slice image.bytes s.file.start.toNat s.file.size.toNat).toOption
  else none

def sectionDataByName? (image : Image) (name : String) : Option (List UInt8) := do
  image.sectionData? (← image.sectionIndex? name)

/-- The first segment loaded at an address. -/
def loadSegmentIndex? (image : Image) (address : UInt32) : Option Nat :=
  image.segments.findIdx? fun s => s.type = .load ∧ s.memory.contains address

/-- The bytes from an address to the end of its segment's bytes in the file. -/
def dataAt? (image : Image) (address : UInt32) : Option (List UInt8) := do
  let segment ← image.segments[← image.loadSegmentIndex? address]?
  let offset ← segment.offset? address
  let size := segment.file.stop - offset
  (slice image.bytes offset.toNat size.toNat).toOption

/-- A string of a string table.  The index may point into the middle of one. -/
def readString? (image : Image) (home index : UInt32) : Option (Except OutOfBounds String) := do
  let bytes ← image.sectionData? home
  return Reader.string.on (.ofBytes image.order bytes index.toNat)

def string? (image : Image) (home index : UInt32) : Option String := do
  (← image.readString? home index).toOption

/-! ## Loading -/

/-- The entries of a table of headers. -/
def readTable {α : Type} (count entrySize offset : Nat)
    (read : Nat → Except ImageError α) : Except ImageError (Array α) :=
  Array.mapM (fun i => read (offset + i * entrySize)) (Array.range count)

def readSegment (order : ByteOrder) (bytes : Array UInt8) (offset : Nat) :
    Except ImageError Segment :=
  Except.mapError ImageError.ofOutOfBounds do
    let s ← Segment.read.on (.window order bytes offset Segment.headerSize)
    if s.type = .load then
      discard (slice bytes s.file.start.toNat s.file.size.toNat)
    return s

def readSegments (order : ByteOrder) (bytes : Array UInt8) (h : Header) :
    Except ImageError (Array Segment) := do
  if h.programHeaderCount = 0 then return #[]
  if h.programHeaderSize.toNat < Segment.headerSize then
    throw (.invalidHeader (.programHeaderSize h.programHeaderSize))
  readTable h.programHeaderCount.toNat h.programHeaderSize.toNat
    h.programHeaderOffset.toNat (readSegment order bytes)

def readSection (order : ByteOrder) (bytes : Array UInt8) (offset : Nat) :
    Except ImageError Section :=
  Except.mapError ImageError.ofOutOfBounds do
    let s ← Section.read.on (.window order bytes offset Section.headerSize)
    if s.hasData then
      discard (slice bytes s.file.start.toNat s.file.size.toNat)
    return s

def readSections (order : ByteOrder) (bytes : Array UInt8) (h : Header) :
    Except ImageError (Array Section) := do
  if h.sectionHeaderCount = 0 then return #[]
  if h.sectionHeaderSize.toNat < Section.headerSize then
    throw (.invalidHeader (.sectionHeaderSize h.sectionHeaderSize))
  readTable h.sectionHeaderCount.toNat h.sectionHeaderSize.toNat
    h.sectionHeaderOffset.toNat (readSection order bytes)

/-- A name from a string table, empty with a warning if it cannot be read. -/
def nameIn (image : Image) (home index : UInt32) : String × List LoadWarning :=
  match image.readString? home index with
  | none => ("", [])
  | some (.ok name) => (name, [])
  | some (.error cause) => ("", [.unreadableString home index cause])

/-- Gives the sections their names, if the image has a table of them. -/
def nameSections (image : Image) : Image :=
  let home := image.header.nameTableIndex.toUInt32
  if home = 0 then image
  else if (image.section? home).isNone then
    { image with warnings := image.warnings ++ [.badNameTable image.header.nameTableIndex] }
  else
    let names := image.sections.map fun s => image.nameIn home s.nameIndex
    { image with
      sections := image.sections.zipWith (fun s (name, _) => { s with name }) names
      warnings := image.warnings ++ names.toList.flatMap Prod.snd }

/-- The symbols from an offset on, one for each entry that ends by the end of the table, or the
first that cannot be read.  Offsets are words, so an entry size that is large enough leads back to
offsets that were there before.  After as many rounds as there are words it would go on for
ever. -/
def readSymbolsFrom (image : Image) (entrySize stop : UInt32) :
    Nat → UInt32 → Except LoadWarning (List Symbol)
  | 0, _ => .ok []
  | rounds + 1, offset =>
      if offset + entrySize ≤ stop then
        match Symbol.read.on
            (.window image.order image.bytes offset.toNat Symbol.entrySize) with
        | .error cause => .error (.unreadableSymbol offset.toNat cause)
        | .ok s => (readSymbolsFrom image entrySize stop rounds (offset + entrySize)).map (s :: ·)
      else .ok []

/-- The entries of a symbol table, or the one that cannot be read. -/
def readSymbols (image : Image) (s : Section) : Except LoadWarning (List Symbol) :=
  let entrySize := if s.entrySize = 0 then .ofNat Symbol.entrySize else s.entrySize
  image.readSymbolsFrom entrySize s.file.stop UInt32.size s.file.start

def nameSymbol (image : Image) (home : UInt32) (s : Symbol) : Symbol × List LoadWarning :=
  if s.nameIndex = 0 then (s, [])
  else
    let (name, warnings) := image.nameIn home s.nameIndex
    ({ s with name }, warnings)

/-- Reads the first symbol table. -/
def readSymbolTable (image : Image) : Image :=
  match image.sections.zipIdx.find? (·.1.type = .symbolTable) with
  | none => image
  | some (s, home) =>
      match image.readSymbols s with
      | .error warning => { image with warnings := image.warnings ++ [warning] }
      | .ok symbols =>
          let named := symbols.map (image.nameSymbol s.link)
          { image with
            symbols := some { home, entries := named.map Prod.fst }
            warnings := image.warnings ++ named.flatMap Prod.snd }

def load (bytes : Array UInt8) : Except ImageError Image := do
  let order ← identify bytes
  let header ← (Header.ofBytes order bytes).mapError ImageError.ofOutOfBounds
  let segments ← readSegments order bytes header
  let sections ← readSections order bytes header
  let image : Image :=
    { bytes, order, header, segments, sections, symbols := none, warnings := [] }
  return image.nameSections.readSymbolTable

end Image

end DwarfOne
