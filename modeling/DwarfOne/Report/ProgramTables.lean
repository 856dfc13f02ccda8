/-
# `Report.ProgramTables` — what a program is made of
-/
import DwarfOne.Program.Basic
import DwarfOne.Program.Language
import DwarfOne.Report.Table
import DwarfOne.Source.SpecialName

namespace DwarfOne.Program

/-- The number of entries in a file's line table. -/
def lineCount (p : Program) (file : File) : Nat :=
  ((file.lineTable.bind p.debug.lineTable?).map (·.entries.length)).getD 0

def unitTable (p : Program) : Table where
  columns :=
    [⟨"offset", .hex, "offset of the compile unit record"⟩,
     ⟨"name", .text, "path of the primary source file"⟩,
     ⟨"producer", .text, "the compiler that generated the unit"⟩,
     ⟨"language", .text, "the source language"⟩,
     ⟨"lines", .number, "number of entries in the unit's line table"⟩,
     ⟨"types", .number, "number of user defined types"⟩,
     ⟨"functions", .number, "number of functions"⟩,
     ⟨"variables", .number, "number of global and file static variables"⟩]
  rows := p.files.toList.map fun file =>
    [Numeral.hex file.offset.toNat, file.name, file.producer.getD "",
     (file.language.map languageName).getD "", Numeral.decimal (p.lineCount file),
     Numeral.decimal file.types.length, Numeral.decimal file.functions.length,
     Numeral.decimal file.vars.length]

/-- The name of a function, after that of its class if it has one. -/
def qualifiedName (p : Program) (f : Function) : Except DanglingReference String :=
  match f.owner with
  | none => .ok (SpecialName.display f.name none)
  | some offset => do
      let owner ← p.typeName offset
      return owner ++ "::" ++ SpecialName.display f.name (some owner)

def functionRow (p : Program) (file : File) (f : Function) :
    Except DanglingReference (List String) := do
  let name ← p.qualifiedName f
  return [Numeral.hex f.offset.toNat, name, Numeral.hex f.low.toNat, Numeral.hex f.high.toNat,
    Numeral.decimal f.size, Numeral.decimal f.lines.length, file.name]

def functionTable (p : Program) : Except DanglingReference Table := do
  let rows ← p.files.toList.mapM fun file => (p.functionsOf file).mapM (p.functionRow file)
  return {
    columns :=
      [⟨"offset", .hex, "offset of the subroutine record"⟩,
       ⟨"name", .text, "the function name, qualified for member functions"⟩,
       ⟨"low", .hex, "address of the first instruction"⟩,
       ⟨"high", .hex, "address after the last instruction"⟩,
       ⟨"size", .number, "size of the code in bytes"⟩,
       ⟨"lines", .number, "number of line table entries within the function"⟩,
       ⟨"file", .text, "the compile unit the function was declared in"⟩]
    rows := rows.flatten }

def variableTable (p : Program) : Table where
  columns :=
    [⟨"offset", .hex, "offset of the variable record"⟩,
     ⟨"name", .text, "the variable name"⟩,
     ⟨"scope", .text, "global or static to its file"⟩,
     ⟨"address", .hex, "where the variable lives if it has a fixed address"⟩,
     ⟨"file", .text, "the compile unit the variable was declared in"⟩]
  rows := p.files.toList.flatMap fun file => (p.variablesOf file).map fun v =>
    [Numeral.hex v.offset.toNat, v.name, if v.isGlobal then "global" else "static",
     (v.address.map fun n => Numeral.hex n.toNat).getD "", file.name]

/-- What a type is called, and its size if that is known. -/
def kindAndSize : UserType → String × Option UInt32
  | .ofClass c => (c.kind.keyword, some c.byteSize)
  | .ofEnum e => ("enum", e.byteSize)
  | .ofArray _ => ("array", none)
  | .ofRoutine _ => ("function", none)
  | .ofMemberPointer _ => ("pointer to member", none)

def typeTable (p : Program) : Table where
  columns :=
    [⟨"offset", .hex, "offset of the type record"⟩,
     ⟨"kind", .text, "class, struct, union, enum, array, function or pointer to member"⟩,
     ⟨"name", .text, "the type name, empty for anonymous types"⟩,
     ⟨"size", .number, "size in bytes if known"⟩,
     ⟨"file", .text, "the compile unit the type was declared in"⟩]
  rows := p.files.toList.flatMap fun file => (p.typesOf file).map fun t =>
    let (kind, size) := kindAndSize t
    [Numeral.hex t.offset.toNat, kind, t.name,
     (size.map fun n => Numeral.decimal n.toNat).getD "", file.name]

end DwarfOne.Program
