/-
# `Source.Declarator` — declarations, C fashion

The type of a declared name stands on both sides of it: `void (*f)(int)`,
`char s[8]`.  So a type has a front and a back.  A named type is shown by its
name; one without is written out where it is used, and what it is made of may
in turn be written out inside it.

How a type is written out is left open here, as a `Nested`, and settled once
everything that may stand inside a type is known.
-/
import DwarfOne.PowerPC.Disassembly
import DwarfOne.Program.Basic
import DwarfOne.Source.Settings
import DwarfOne.Source.Token

namespace DwarfOne

/-- A program to be shown as source. -/
structure Source where
  program : Program
  settings : SourceSettings
  /-- Where the instructions of functions come from. -/
  disassembly : Option (Image × Disassembler)

/-- Why there is nothing to show. -/
inductive RenderError
  | dangling (reference : DanglingReference)
  /-- A type without a name is part of itself. -/
  | endless
  deriving DecidableEq, Repr

def RenderError.message : RenderError → String
  | .dangling reference => reference.message
  | .endless => "a type without a name is part of itself"

/-- What comes before a declared name. -/
structure Front where
  tokens : List Token
  /-- Whether the name follows without a space, as in `(*f`. -/
  tight : Bool
  deriving DecidableEq, Repr

/-- How a type is written out, at an indent and under modifiers. -/
structure Nested where
  front : Nat → UserType → List Modifier → Except RenderError Front
  back : Nat → UserType → List Modifier → Except RenderError (List Token)

/-- Nothing may be written out. -/
def Nested.refuse : Nested where
  front _ _ _ := .error .endless
  back _ _ _ := .error .endless

namespace Token

def ofKeyword (text : String) : Token := ⟨.keyword, text⟩

def ofIdentifier (text : String) : Token := ⟨.identifier, text⟩

def ofLiteral (text : String) : Token := ⟨.literal, text⟩

def ofPunctuation (text : String) : Token := ⟨.punctuation, text⟩

def space : Token := ofPunctuation " "

/-- A comment to the end of the line. -/
def remark (text : String) : Token := ⟨.comment, "// " ++ text⟩

/-- A comment inside a line. -/
def aside (text : String) : Token := ⟨.comment, "/* " ++ text ++ " */"⟩

/-- The end of a line, with nothing before the next one. -/
def lineBreak : Token := ofPunctuation "\n"

/-- The end of a line and the indent of the next one. -/
def newline (indent : Nat) : List Token :=
  lineBreak :: List.replicate indent (ofPunctuation "    ")

end Token

namespace Source

open Token

variable (s : Source) (nested : Nested)

/-! ## Qualifiers and modifiers -/

def qualifiers (isConst isVolatile : Bool) : List Token :=
  match isConst, isVolatile with
  | true, true => [ofKeyword "const", space, ofKeyword "volatile"]
  | true, false => [ofKeyword "const"]
  | false, true => [ofKeyword "volatile"]
  | false, false => []

/-- The qualifiers of a base, set off from what follows. -/
def baseQualifiers (ty : TypeRef) : List Token :=
  if ty.isConst || ty.isVolatile then qualifiers ty.isConst ty.isVolatile ++ [space] else []

def modifierMark : ModifierKind → Token
  | .pointer => ofPunctuation "*"
  | .reference => ofPunctuation "&"

/-- Pointers and references, innermost first. -/
def modifiers : List Modifier → List Token
  | [] => []
  | m :: rest =>
      let qualified :=
        if m.isConst || m.isVolatile then
          [space] ++ qualifiers m.isConst m.isVolatile ++ if rest.isEmpty then [] else [space]
        else []
      [modifierMark m.kind] ++ qualified ++ modifiers rest

def dimensions (a : ArrayType) : List Token :=
  a.dimensions.flatMap fun
    | some n => [ofPunctuation "[", ofLiteral (Numeral.decimal n.toNat), ofPunctuation "]"]
    | none => [ofPunctuation "[", ofPunctuation "]"]

/-! ## Types around a name -/

/-- The name of the type at an offset. -/
def nameOf (offset : UInt32) : Except RenderError String :=
  match s.program.typeName offset with
  | .ok name => .ok name
  | .error e => .error (.dangling e)

/-- Whether a type with a name is written where it is used. -/
def canInline (name : String) : Bool :=
  name.isEmpty || (s.settings.inlineAnonymous && name.toList.head? = some '@')

/-- The type at an offset, if it is to be written out. -/
def inlined? (offset : UInt32) : Except RenderError (Option UserType) := do
  let name ← s.nameOf offset
  return if s.canInline name then s.program.types[offset]? else none

/-- What stands before a declared name. -/
def front (indent : Nat) (ty : TypeRef) : Except RenderError Front := do
  let start := baseQualifiers ty
  match ty.base with
  | .fundamental id =>
      let name := ofKeyword (s.settings.fundamentals.name id)
      return { tokens := start ++ [name] ++ modifiers ty.modifiers, tight := false }
  | .user offset =>
      match ← s.inlined? offset with
      | some t =>
          let written ← nested.front indent t ty.modifiers
          return { written with tokens := start ++ written.tokens }
      | none =>
          let name := ofIdentifier (← s.nameOf offset)
          return { tokens := start ++ [name] ++ modifiers ty.modifiers, tight := false }

/-- What stands after a declared name. -/
def back (indent : Nat) (ty : TypeRef) : Except RenderError (List Token) := do
  match ty.base with
  | .fundamental _ => return []
  | .user offset =>
      match ← s.inlined? offset with
      | some t => nested.back indent t ty.modifiers
      | none => return []

/-- A name after a front. -/
def named (tight : Bool) (name : String) : List Token :=
  if name.isEmpty then []
  else if tight then [ofIdentifier name]
  else [space, ofIdentifier name]

/-- A name with its type: `int* p`, `void (*f)(int)`, `char s[8]`. -/
def declaration (indent : Nat) (ty : TypeRef) (name : String) :
    Except RenderError (List Token) := do
  let before ← s.front nested indent ty
  let after ← s.back nested indent ty
  return before.tokens ++ named before.tight name ++ after

/-- A type that declares no name. -/
def typeName (indent : Nat) (ty : TypeRef) : Except RenderError (List Token) := do
  let before ← s.front nested indent ty
  let after ← s.back nested indent ty
  return before.tokens ++ after

end Source

end DwarfOne
