/-
# `Source.Basic` — a program as C++ source

A file shows its types, then variables, then functions declared and defined.
Several files are shown together as if they were one, except that their types
stay apart.
-/
import DwarfOne.Source.Body
import DwarfOne.Text.Case

namespace DwarfOne

namespace Source

open Token

variable (s : Source) (nested : Nested)

/-! ## Types -/

def arrayTypedef (a : ArrayType) : Except RenderError (List Token) := do
  let before ← s.front nested 0 a.element
  let after ← s.back nested 0 a.element
  return leadingRemark 0 (s.offsetRemark a.offset) ++ [ofKeyword "typedef", space] ++
    before.tokens ++ named before.tight a.name ++ dimensions a ++ after ++ [ofPunctuation ";"]

def routineTypedef (r : RoutineType) : Except RenderError (List Token) := do
  let before ← s.front nested 0 r.returnType
  let parameters ← s.parameters nested 0 false r
  let after ← s.back nested 0 r.returnType
  return leadingRemark 0 (s.offsetRemark r.offset) ++ [ofKeyword "typedef", space] ++
    before.tokens ++ [ofPunctuation " (", ofIdentifier r.name, ofPunctuation ")"] ++ parameters ++
    after ++ [ofPunctuation ";"]

def memberPointerTypedef (p : MemberPointerType) : Except RenderError (List Token) := do
  let before ← s.memberPointerFront nested 0 p []
  let after ← s.back nested 0 p.type
  return leadingRemark 0 (s.offsetRemark p.offset) ++ [ofKeyword "typedef", space] ++ before ++
    [ofIdentifier p.name] ++ after ++ [ofPunctuation ";"]

def userType : UserType → Except RenderError (List Token)
  | .ofClass c => s.classType nested 0 c false
  | .ofEnum e => return s.enumeration 0 e false
  | .ofArray a => s.arrayTypedef nested a
  | .ofRoutine r => s.routineTypedef nested r
  | .ofMemberPointer p => s.memberPointerTypedef nested p

/-! ## Variables -/

def variableRemarks (v : Variable) : List String :=
  let remarks := s.settings.remarks
  let mangled := if remarks.variableMangledNames then v.mangled.toList else []
  let address :=
    if remarks.variableAddresses then
      v.address.toList.map fun n => "Address: " ++ Numeral.upperOffset n.toNat
    else []
  mangled ++ address ++ s.offsetRemark v.offset

def fileVariable (v : Variable) : Except RenderError (List Token) := do
  let static := if v.isGlobal then [] else [ofKeyword "static", space]
  let declared ← s.declaration nested 0 v.type v.name
  return static ++ declared ++ [ofPunctuation ";"] ++ trailingRemark (s.variableRemarks v)

/-! ## Functions -/

def instructionText (i : Instruction) : String :=
  Text.trimEnd <|
    Numeral.zeroPadded 8 (Numeral.upperHex i.address.toNat) ++ "  " ++
      Numeral.padRight 8 i.mnemonic ++ " " ++ i.operands

/-- A remark for each instruction, followed by one for each line that starts
there.  Lines are in the order of their addresses. -/
def instructions (indent : Nat) : List LineEntry → List Instruction → List Token
  | _, [] => []
  | lines, i :: rest =>
      let due := lines.dropWhile (·.address < i.address)
      let (here, later) := due.span (·.address = i.address)
      let lineRemark (line : LineEntry) : List Token :=
        newline indent ++ [remark ("Line " ++ Numeral.decimal line.line.toNat)]
      newline indent ++ [remark (instructionText i)] ++ here.flatMap lineRemark ++
        instructions indent later rest

/-- The instructions of a function, if they can be found. -/
def codeOf (f : Function) : Option (List Instruction) := do
  let (image, disassemble) ← s.disassembly
  if f.low < f.high then (disassemble image f.low f.high).toOption else none

/-- The instructions of a function, set off from its variables. -/
def disassembled (f : Function) : List Token :=
  match s.codeOf f with
  | none => []
  | some code =>
      let gap := if f.locals.isEmpty then [] else [lineBreak]
      gap ++ instructions 1 (f.lines.mergeSort (·.address ≤ ·.address)) code

def localVariable (l : Local) : Except RenderError (List Token) := do
  let declared ← s.declaration nested 1 l.type l.name
  let kept :=
    match l.location with
    | some location =>
        if s.settings.remarks.variableLocations then [space, remark location.text] else []
    | none => []
  return newline 1 ++ declared ++ [ofPunctuation ";"] ++ kept

def functionRemarks (f : Function) : List String :=
  let remarks := s.settings.remarks
  let mangled := if remarks.functionMangledNames then f.mangled.toList else []
  let address :=
    if remarks.functionAddresses then ["Address: " ++ Numeral.upperOffset f.low.toNat] else []
  let size := if remarks.functionSizes then ["Size: " ++ Numeral.upperOffset f.size] else []
  mangled ++ address ++ size ++ s.offsetRemark f.offset

def functionDefinition (f : Function) : Except RenderError (List Token) := do
  let remarks := (s.functionRemarks f).flatMap fun text => [remark text] ++ newline 0
  let signature ← s.signature nested 0 f true false
  let locals ← f.locals.mapM (s.localVariable nested)
  let code := if s.settings.disassembly then s.disassembled f else []
  return remarks ++ signature ++ newline 0 ++ [ofPunctuation "\x7b"] ++ locals.flatten ++ code ++
    newline 0 ++ [ofPunctuation "\x7d"]

/-! ## Files -/

/-- Whether types of this kind are shown. -/
def shows : UserType → Bool
  | .ofClass _ => s.settings.classes
  | .ofEnum _ => s.settings.enums
  | .ofArray _ => s.settings.arrays
  | .ofRoutine _ => s.settings.routineTypes
  | .ofMemberPointer _ => s.settings.memberPointers

/-- The types shown in a file.  Those written where they are used are not. -/
def typesOf (file : File) : List UserType :=
  let shown := (s.program.typesOf file).filter fun t => !s.canInline t.name && s.shows t
  if s.settings.sortTypes then shown.mergeSort (fun a b => Case.lower a.name ≤ Case.lower b.name)
  else shown

/-- The functions of files together. -/
def functionsOf (files : List File) : List Function :=
  let all := files.flatMap s.program.functionsOf
  if s.settings.sortFunctions then all.mergeSort (·.low ≤ ·.low) else all

def fileRemarks (files : List File) : List Token :=
  files.flatMap fun file =>
    (s.offsetRemark file.offset).flatMap fun text => [remark text] ++ newline 0 ++ newline 0

def typesPart (files : List File) : Except RenderError (List Token) := do
  let types ← (files.flatMap s.typesOf).mapM fun t =>
    return (← s.userType nested t) ++ newline 0 ++ newline 0
  return types.flatten

def variablesPart (files : List File) : Except RenderError (List Token) := do
  let all := files.flatMap s.program.variablesOf
  if s.settings.vars && !all.isEmpty then
    let vars ← all.mapM fun v => return (← s.fileVariable nested v) ++ newline 0
    return vars.flatten ++ newline 0
  else return []

def declarationsPart (files : List File) : Except RenderError (List Token) := do
  let all := s.functionsOf files
  if s.settings.declarations && !all.isEmpty then
    let functions ← all.mapM fun f =>
      return (← s.functionDeclaration nested 0 f false) ++ newline 0
    return functions.flatten ++ newline 0
  else return []

def definitionsPart (files : List File) : Except RenderError (List Token) := do
  if s.settings.definitions then
    let functions ← (s.functionsOf files).mapM fun f =>
      return (← s.functionDefinition nested f) ++ newline 0 ++ newline 0
    return functions.flatten
  else return []

def files (files : List File) : Except RenderError (List Token) := do
  let types ← s.typesPart nested files
  let vars ← s.variablesPart nested files
  let declarations ← s.declarationsPart nested files
  let definitions ← s.definitionsPart nested files
  return s.fileRemarks files ++ types ++ vars ++ declarations ++ definitions

end Source

/-! ## Rendering -/

/-- What to show. -/
inductive RenderTarget
  | all
  /-- Every file with a name. -/
  | path (name : String)
  /-- The file, type, variable or function whose record is at an offset. -/
  | entry (offset : UInt32)
  deriving DecidableEq, Repr

namespace Source

/-- What stands at an offset, which may be nothing. -/
def entry (s : Source) (offset : UInt32) : Except RenderError (List Token) :=
  match s.program.file? offset with
  | some file => s.files s.writtenOut [file]
  | none =>
  match s.program.types[offset]? with
  | some t => s.userType s.writtenOut t
  | none =>
  match s.program.vars[offset]? with
  | some v => s.fileVariable s.writtenOut v
  | none =>
  match s.program.functions[offset]? with
  | some f => s.functionDefinition s.writtenOut f
  | none => .ok []

/-- The tokens in the order they are written. -/
def tokens (s : Source) : RenderTarget → Except RenderError (List Token)
  | .all => s.files s.writtenOut s.program.files.toList
  | .path name => s.files s.writtenOut (s.program.filesNamed name)
  | .entry offset => s.entry offset

def render (s : Source) (target : RenderTarget) : Except RenderError Code :=
  Code.ofTokens <$> s.tokens target

end Source

end DwarfOne
