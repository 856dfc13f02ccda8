/-
# `Image.Symbol` — entries of the static symbol table
-/
import DwarfOne.Bytes.Cursor

namespace DwarfOne

/-- What a symbol's value is relative to. -/
inductive SymbolIndex
  | undefined
  | absolute
  | common
  | inSection (index : UInt32)
  deriving DecidableEq, Repr

def SymbolIndex.ofValue (value : UInt16) : SymbolIndex :=
  match value with
  | 0 => .undefined
  | 0xfff1 => .absolute
  | 0xfff2 => .common
  | _ => .inSection value.toUInt32

/-- Who can see a symbol. -/
inductive SymbolBinding
  | internal
  | global
  | weak
  | reserved
  deriving DecidableEq, Repr

namespace SymbolBinding

/-- The upper half of an entry's info byte. -/
def ofInfo (info : UInt8) : SymbolBinding :=
  match info >>> 4 with
  | 0 => .internal
  | 1 => .global
  | 2 => .weak
  | _ => .reserved

def text : SymbolBinding → String
  | .internal => "Local"
  | .global => "Global"
  | .weak => "Weak"
  | .reserved => "Reserved"

end SymbolBinding

inductive SymbolType
  | none
  | object
  | func
  | sectionSymbol
  | file
  | reserved
  deriving DecidableEq, Repr

namespace SymbolType

/-- The lower half of an entry's info byte. -/
def ofInfo (info : UInt8) : SymbolType :=
  match info &&& 0xf with
  | 0 => .none
  | 1 => .object
  | 2 => .func
  | 3 => .sectionSymbol
  | 4 => .file
  | _ => .reserved

def text : SymbolType → String
  | .none => "None"
  | .object => "Object"
  | .func => "Func"
  | .sectionSymbol => "Section"
  | .file => "File"
  | .reserved => "Reserved"

end SymbolType

structure Symbol where
  name : String
  value : UInt32
  /-- Zero if unknown. -/
  size : UInt32
  type : SymbolType
  binding : SymbolBinding
  index : SymbolIndex
  nameIndex : UInt32
  deriving DecidableEq, Repr

namespace Symbol

def entrySize : Nat := 16

/-- A symbol table entry.  Its name is found later. -/
def read : Reader OutOfBounds Symbol := do
  let nameIndex ← Reader.word
  let value ← Reader.word
  let size ← Reader.word
  let info ← Reader.byte
  let _other ← Reader.byte
  let index ← Reader.half
  return { name := "", value, size, type := .ofInfo info, binding := .ofInfo info
           index := .ofValue index, nameIndex }

end Symbol

structure SymbolTable where
  /-- The section the table is in. -/
  home : Nat
  entries : List Symbol
  deriving DecidableEq, Repr

end DwarfOne
