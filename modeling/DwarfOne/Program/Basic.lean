/-
# `Program.Basic` — the program the records describe

The records are walked once.  Two short passes over what was found then give
classes their member functions and functions their lines; neither can be done
earlier, since a function may come before its class.
-/
import DwarfOne.Program.RangeMap
import DwarfOne.Program.Routines
import DwarfOne.Program.Types

namespace DwarfOne

/-! ## Units -/

/-- What may stand inside a unit. -/
inductive UnitPart
  | ofType (t : UserType)
  | ofFunction (f : Function)
  | ofVariable (v : Variable)
  deriving DecidableEq, Repr

namespace UnitPart

def ofEntry (parent e : Entry) : Build (Option UnitPart) :=
  match e.tag with
  | .classType => do return some (.ofType (.ofClass (← ClassType.ofEntry .classKind e)))
  | .structureType => do return some (.ofType (.ofClass (← ClassType.ofEntry .structKind e)))
  | .unionType => do return some (.ofType (.ofClass (← ClassType.ofEntry .unionKind e)))
  | .enumerationType => do return some (.ofType (.ofEnum (← EnumType.ofEntry e)))
  | .arrayType => do return some (.ofType (.ofArray (← ArrayType.ofEntry e)))
  | .subroutineType => do return some (.ofType (.ofRoutine (← RoutineType.ofEntry e)))
  | .pointerToMemberType => do
      return some (.ofType (.ofMemberPointer (← MemberPointerType.ofEntry e)))
  | .subroutine | .globalSubroutine | .inlinedSubroutine => do
      return some (.ofFunction (← Function.ofEntry e))
  | .globalVariable | .localVariable => do return some (.ofVariable (← Variable.ofEntry e))
  | _ => do e.unknown parent.describe; return none

def asType? : UnitPart → Option UserType
  | .ofType t => some t
  | _ => none

def asFunction? : UnitPart → Option Function
  | .ofFunction f => some f
  | _ => none

def asVariable? : UnitPart → Option Variable
  | .ofVariable v => some v
  | _ => none

end UnitPart

/-- A unit together with what it declares. -/
structure CompileUnit where
  file : File
  parts : List UnitPart
  deriving DecidableEq, Repr

namespace File

def addAttribute (e : Entry) (f : File) (a : Attribute) : Build File :=
  match a.name with
  | .name => do return { f with name := ← e.text a }
  | .producer => do return { f with producer := ← e.text? a }
  | .compDir => do return { f with directory := ← e.text? a }
  | .language => do return { f with language := ← e.number? a }
  | .lowPc => do return { f with low := ← e.number? a }
  | .highPc => do return { f with high := ← e.number? a }
  | .stmtList => do return { f with statementList := ← e.number? a }
  | _ => do e.unknownAttribute a; return f

/-- A unit of which nothing but the record is known. -/
def start (e : Entry) : File :=
  { offset := e.offset, name := "", producer := none, language := none, directory := none
    low := none, high := none, statementList := none, types := [], functions := []
    vars := [], lineTable := none }

end File

namespace CompileUnit

def ofEntry (e : Entry) : Build CompileUnit := do
  let file ← Build.refine (File.addAttribute e) (File.start e) e.attributes
  let parts ← Build.gather (UnitPart.ofEntry e) e.children
  let file := { file with
    types := (parts.filterMap UnitPart.asType?).map UserType.offset
    functions := (parts.filterMap UnitPart.asFunction?).map Function.offset
    vars := (parts.filterMap UnitPart.asVariable?).map Variable.offset }
  return { file, parts }

/-- Only units stand at the top. -/
def ofRoot (e : Entry) : Build (Option CompileUnit) :=
  match e.tag with
  | .compileUnit => do return some (← ofEntry e)
  | _ => do e.unknown "(root)"; return none

end CompileUnit

/-! ## Programs -/

structure Program where
  debug : DebugInfo
  files : Array File
  types : Std.TreeMap UInt32 UserType
  functions : Std.TreeMap UInt32 Function
  vars : Std.TreeMap UInt32 Variable
  /-- The places of the files with a name. -/
  paths : Std.TreeMap String (List Nat)

namespace Program

def empty (debug : DebugInfo) : Program :=
  { debug, files := #[], types := ∅, functions := ∅, vars := ∅, paths := ∅ }

def addPart (p : Program) : UnitPart → Program
  | .ofType t => { p with types := p.types.insert t.offset t }
  | .ofFunction f => { p with functions := p.functions.insert f.offset f }
  | .ofVariable v => { p with vars := p.vars.insert v.offset v }

def addUnit (p : Program) (u : CompileUnit) : Program :=
  let p := u.parts.foldl addPart p
  let places := p.paths.getD u.file.name []
  { p with
    files := p.files.push u.file
    paths := p.paths.insert u.file.name (places ++ [p.files.size]) }

/-! ### Member functions -/

/-- The functions that say they are members, each with its class. -/
def memberLinks (p : Program) : List (UInt32 × UInt32) :=
  p.files.toList.flatMap fun file =>
    file.functions.filterMap fun offset =>
      (p.functions[offset]?.bind Function.owner).map (offset, ·)

def notAClass (function owner : UInt32) : Diagnostic where
  kind := .unknownAttribute
  offset := function
  message := "Member function at offset " ++ Numeral.upperOffset function.toNat ++
    " refers to " ++ Numeral.upperOffset owner.toNat ++ " which isn't a class"

/-- Adds a function to its class, or warns that there is no such class. -/
def linkMember (p : Program) (function owner : UInt32) : Build Program :=
  match p.types[owner]? with
  | some (.ofClass c) =>
      let c := { c with functions := c.functions ++ [function] }
      return { p with types := p.types.insert owner (.ofClass c) }
  | _ => do
      Build.warn (notAClass function owner)
      return p

def linkMembers (p : Program) : Build Program :=
  p.memberLinks.foldlM (fun p link => p.linkMember link.1 link.2) p

/-! ### Lines -/

section Lines

variable [RangeMap UInt32]

/-- The functions of a file by their addresses. -/
def functionRanges (p : Program) (file : File) : RangeMap.Map UInt32 :=
  file.functions.foldl
    (fun ranges offset =>
      match p.functions[offset]? with
      | some f =>
          if f.low < f.high then RangeMap.insert ranges f.low f.high offset else ranges
      | none => ranges)
    RangeMap.empty

def outsideLine (file : File) (entry : LineEntry) : Diagnostic where
  kind := .unrecognizedLine
  offset := entry.address
  message := "Unrecognized line entry: line " ++ Numeral.decimal entry.line.toNat ++
    " at address " ++ Numeral.upperOffset entry.address.toNat ++ " in " ++ file.name

/-- Adds an entry to the function at its address, or warns that there is
none. -/
def assignLine (file : File) (ranges : RangeMap.Map UInt32) (p : Program) (entry : LineEntry) :
    Build Program :=
  match RangeMap.get? ranges entry.address with
  | some offset =>
      return { p with
        functions := p.functions.modify offset fun f => { f with lines := f.lines ++ [entry] } }
  | none => do
      Build.warn (outsideLine file entry)
      return p

/-- The line table of a file.  Several units may give offset zero for want of
a table, so only the first of them is given the one there. -/
def tableOf (p : Program) (zeroClaimed : Bool) (file : File) : Option LineTable := do
  let offset ← file.statementList
  if offset = 0 ∧ zeroClaimed then none else p.debug.lineTable? offset

/-- Gives the file at a place its line table and the table's entries to its
functions. -/
def assignFileLines (p : Program) (zeroClaimed : Bool) (place : Nat) : Build Program :=
  match p.files[place]? with
  | none => return p
  | some file =>
      match p.tableOf zeroClaimed file with
      | none => return p
      | some table =>
          let files := p.files.setIfInBounds place { file with lineTable := file.statementList }
          table.entries.foldlM (assignLine file (p.functionRanges file)) { p with files }

/-- Goes on to the file at a place.  Beside the program goes whether a file has
claimed the table at offset zero, be there one or not. -/
def nextFile (s : Program × Bool) (place : Nat) : Build (Program × Bool) := do
  let claims := s.1.files[place]?.bind File.statementList = some 0
  return (← s.1.assignFileLines s.2 place, s.2 || claims)

/-- Gives out the lines of as many files. -/
def assignLinesOf (p : Program) (count : Nat) : Build (Program × Bool) :=
  (List.range count).foldlM nextFile (p, false)

def assignLines (p : Program) : Build Program := do
  return (← p.assignLinesOf p.files.size).1

end Lines

/-! ### Building -/

/-- The units at the top, entered in order. -/
def readUnits (debug : DebugInfo) : Build Program := do
  let units ← Build.gather CompileUnit.ofRoot (debug.roots.map (Entry.mk debug))
  return units.foldl addUnit (empty debug)

def walk [RangeMap UInt32] (debug : DebugInfo) : Build Program := do
  let p ← readUnits debug
  let p ← p.linkMembers
  p.assignLines

/-- The program, with the warnings the settings let through. -/
def build [RangeMap UInt32] (debug : DebugInfo) (settings : DiagnosticSettings) :
    Except DanglingReference (Program × Diagnostics) :=
  walk debug (.empty settings)

/-! ### Looking things up -/

/-- The first file with an offset. -/
def file? (p : Program) (offset : UInt32) : Option File :=
  p.files.find? (·.offset = offset)

/-- Every file with a name. -/
def filesNamed (p : Program) (path : String) : List File :=
  (p.paths.getD path []).filterMap (p.files[·]?)

/-- The name of the record at an offset, whether or not it is a type here. -/
def typeName (p : Program) (offset : UInt32) : Except DanglingReference String :=
  match p.types[offset]? with
  | some t => .ok t.name
  | none =>
      match p.debug.find? offset with
      | some place => .ok ((p.debug.name? place).getD "")
      | none => .error (.toType offset)

def typesOf (p : Program) (file : File) : List UserType :=
  file.types.filterMap (p.types[·]?)

def functionsOf (p : Program) (file : File) : List Function :=
  file.functions.filterMap (p.functions[·]?)

def variablesOf (p : Program) (file : File) : List Variable :=
  file.vars.filterMap (p.vars[·]?)

end Program

end DwarfOne
