/-
# `Report.ImageTables` — what an image is made of
-/
import DwarfOne.Image.Basic
import DwarfOne.Report.Table

namespace DwarfOne.Image

def headerItems (image : Image) : List Item :=
  let h := image.header
  let isLittle := image.order.isLittle
  [⟨"type", h.typeName, "type of ELF file"⟩,
   ⟨"little endian", if isLittle then "true" else "false",
    "words are being laid out in memory with the most significant byte " ++
      if isLittle then "last" else "first"⟩,
   ⟨"machine", h.machineName, "CPU architecture"⟩,
   ⟨"osabi", Numeral.decimal h.osabi.toNat, "the OS the binary was compiled for"⟩,
   ⟨"entry", Numeral.offset h.entry.toNat, "address the program starts executing at"⟩,
   ⟨"flags", Numeral.offset h.flags.toNat, "processor specific flags"⟩,
   ⟨"ph_offset", Numeral.decimal h.programHeaderOffset.toNat,
    "offset in the ELF file to the Program Header table"⟩,
   ⟨"num_ph_entries", Numeral.decimal h.programHeaderCount.toNat,
    "number of entries in the Program Header table"⟩,
   ⟨"section_offset", Numeral.decimal h.sectionHeaderOffset.toNat,
    "offset in the ELF file to the section header table"⟩,
   ⟨"num_section_entries", Numeral.decimal h.sectionHeaderCount.toNat,
    "number of entries in the section header table"⟩,
   ⟨"string_table_index", Numeral.decimal h.nameTableIndex.toNat,
    "section index containing the section names"⟩]

def sectionTable (image : Image) : Table where
  columns :=
    [⟨"index", .number, "index into sections."⟩,
     ⟨"name", .text, "section name, e.g. .debug or .line."⟩,
     ⟨"type", .text, "type of the section."⟩,
     ⟨"vaddr", .hex, "virtual address at execution."⟩,
     ⟨"offset", .hex, "offset into the ELF file for the start of the section."⟩,
     ⟨"size", .number, "section size in bytes."⟩,
     ⟨"entry_size", .number, "set if the section holds a table of entries."⟩,
     ⟨"align", .number, "section alignment."⟩,
     ⟨"link", .number,
      "link to another section with related information, usually a string or symbol table."⟩,
     ⟨"info", .number, "additional section info"⟩,
     ⟨"flags", .text, "write, alloc, and/or exec."⟩]
  rows := image.sections.toList.mapIdx fun i s =>
    [Numeral.decimal i, s.name, s.type.text, Numeral.hex s.memory.start.toNat,
     Numeral.hex s.file.start.toNat, Numeral.decimal s.memory.size.toNat,
     Numeral.decimal s.entrySize.toNat, Numeral.decimal s.align.toNat,
     Numeral.decimal s.link.toNat, Numeral.decimal s.info.toNat, s.flags.text]

def segmentTable (image : Image) : Table where
  columns :=
    [⟨"type", .text, "the segment type"⟩,
     ⟨"offset", .hex, "the offset into the ELF file at which the segment appears"⟩,
     ⟨"vaddr", .hex, "the virtual address the segment starts at"⟩,
     ⟨"file size", .hex, "the size of the segment on disk"⟩,
     ⟨"memory size", .hex, "the size of the segment in memory"⟩,
     ⟨"flags", .text, "executable, writeable, and/or readable"⟩]
  rows := image.segments.toList.map fun s =>
    [s.type.text, Numeral.hex s.file.start.toNat, Numeral.hex s.memory.start.toNat,
     Numeral.hex s.file.size.toNat, Numeral.hex s.memory.size.toNat, s.flags.text]

/-- What the explanation of segments ends with. -/
def segmentNote : String :=
  "\nNumeric fields are all in hex. Only Load segments are used to map\n" ++
    "addresses to bytes, e.g. for `hexdump` and disassembly.\n"

def segmentText (paint : Paint) (image : Image) (options : TableOptions) : String :=
  image.segmentTable.text paint options ++ if options.explain then segmentNote else ""

/-- What a symbol is related to. -/
def related (image : Image) : SymbolIndex → String
  | .undefined => ""
  | .absolute => "Value"
  | .common => "Common"
  | .inSection index => ((image.section? index).map Section.name).getD "bad section index"

def symbolRows (image : Image) (symbols : List Symbol) : Table where
  columns :=
    [⟨"index", .number, "symbol index"⟩,
     ⟨"name", .text, "the symbol name"⟩,
     ⟨"type", .text, "the symbol type"⟩,
     ⟨"value", .hex, "address, absolute value, etc"⟩,
     ⟨"size", .number, "size of the value, 0 for unknown or undefined"⟩,
     ⟨"binding", .text, "linkage visibility and behavior"⟩,
     ⟨"related", .text,
      "indicates a related section or marks the entry as an absolute value"⟩]
  rows := symbols.mapIdx fun i s =>
    [Numeral.decimal i, s.name, s.type.text, Numeral.hex s.value.toNat,
     Numeral.decimal s.size.toNat, s.binding.text, image.related s.index]

def symbolText (paint : Paint) (image : Image) (options : TableOptions) : String :=
  match image.symbols with
  | none => "No symbol table found.\n"
  | some table => (image.symbolRows table.entries).text paint options

end DwarfOne.Image
