/-
# `Program.Routines` — routine types, functions and variables

Blocks inside a function add nothing that is shown, so their variables are
taken to be the function's own, in the order they are met.
-/
import DwarfOne.Program.Build
import DwarfOne.Program.Entity

namespace DwarfOne

/-! ## Parameters and local variables -/

namespace Local

def addAttribute (e : Entry) (l : Local) (a : Attribute) : Build Local :=
  match a.name with
  | .name => do return { l with name := ← e.text a }
  | .location => do return { l with location := ← e.location? a }
  | .user _ => return l
  | .fundType | .userDefType | .modFundType | .modUserDefType => do
      return { l with type := (← e.type? a).getD .integer }
  | _ => do e.unknownAttribute a; return l

def ofEntry (e : Entry) : Build Local :=
  Build.refine (addAttribute e)
    { offset := e.offset, name := "", type := .integer, location := none } e.attributes

end Local

/-! ## Routine types -/

/-- What may stand inside a routine type. -/
inductive SignaturePart
  | parameter (p : Local)
  /-- More arguments may follow. -/
  | more
  deriving DecidableEq, Repr

namespace SignaturePart

def ofEntry (parent e : Entry) : Build (Option SignaturePart) :=
  match e.tag with
  | .formalParameter => do return some (.parameter (← Local.ofEntry e))
  | .unspecifiedParameters => return some .more
  | _ => do e.unknown parent.describe; return none

def parameter? : SignaturePart → Option Local
  | .parameter p => some p
  | .more => none

end SignaturePart

namespace RoutineType

def addAttribute (e : Entry) (t : RoutineType) (a : Attribute) : Build RoutineType :=
  match a.name with
  | .name => do return { t with name := ← e.text a }
  | .prototyped => return t
  | .fundType | .userDefType | .modFundType | .modUserDefType => do
      return { t with returnType := (← e.type? a).getD .void }
  | _ => do e.unknownAttribute a; return t

/-- A routine of which nothing but the record is known. -/
def start (e : Entry) : RoutineType :=
  { offset := e.offset, name := "", returnType := .void, parameters := [], variadic := false }

def ofEntry (e : Entry) : Build RoutineType := do
  let t ← Build.refine (addAttribute e) (start e) e.attributes
  let parts ← Build.gather (SignaturePart.ofEntry e) e.children
  return { t with
    parameters := parts.filterMap SignaturePart.parameter?
    variadic := parts.contains .more }

end RoutineType

/-! ## Functions -/

/-- The attributes a block may have say nothing that is shown. -/
def checkBlockAttribute (e : Entry) (a : Attribute) : Build Unit :=
  match a.name with
  | .lowPc | .highPc | .name => pure ()
  | _ => e.unknownAttribute a

/-- The variables of a block and of the blocks inside it.  Blocks nest no
deeper than there are records, which is the fuel. -/
def blockLocals : Nat → Entry → Build (List Local)
  | 0, _ => pure []
  | fuel + 1, block => do
      Build.refine (fun _ a => checkBlockAttribute block a) () block.attributes
      let found ← Build.gather (fun e =>
        match e.tag with
        | .localVariable => do return some [← Local.ofEntry e]
        | .lexicalBlock => do return some (← blockLocals fuel e)
        | _ => do e.unknown block.describe; return none) block.children
      return found.flatten

/-- What may stand inside a function. -/
inductive FunctionPart
  | signature (part : SignaturePart)
  /-- A variable, or those of a block. -/
  | locals (found : List Local)
  deriving DecidableEq, Repr

namespace FunctionPart

def ofEntry (parent e : Entry) : Build (Option FunctionPart) :=
  match e.tag with
  | .localVariable => do return some (.locals [← Local.ofEntry e])
  | .lexicalBlock => do return some (.locals (← blockLocals e.debug.records.size e))
  | _ => do return (← SignaturePart.ofEntry parent e).map .signature

def signature? : FunctionPart → Option SignaturePart
  | .signature part => some part
  | .locals _ => none

def declared : FunctionPart → List Local
  | .signature _ => []
  | .locals found => found

end FunctionPart

namespace Function

def addAttribute (e : Entry) (f : Function) (a : Attribute) : Build Function :=
  match a.name with
  | .name => do return { f with signature := { f.signature with name := ← e.text a } }
  | .lowPc => do return { f with low := (← e.number? a).getD 0 }
  | .highPc => do return { f with high := (← e.number? a).getD 0 }
  | .isInline => return { f with isInline := true }
  | .member => do return { f with owner := ← e.offset? a }
  | .publicAccess => return { f with access := .publicly }
  | .protectedAccess => return { f with access := .protectedly }
  | .privateAccess => return { f with access := .privately }
  | .mangled => do return { f with mangled := ← e.text? a }
  | .globalRef | .globalRefByName | .restoreSP | .returnAddress | .prototyped => return f
  | .fundType | .userDefType | .modFundType | .modUserDefType => do
      let type := (← e.type? a).getD .void
      return { f with signature := { f.signature with returnType := type } }
  | _ => do e.unknownAttribute a; return f

def ofEntry (e : Entry) : Build Function := do
  let f ← Build.refine (addAttribute e)
    { signature := RoutineType.start e
      isGlobal := e.tag = .globalSubroutine, isInline := e.tag = .inlinedSubroutine
      low := 0, high := 0, owner := none, access := .publicly, mangled := none
      locals := [], lines := [] }
    e.attributes
  let parts ← Build.gather (FunctionPart.ofEntry e) e.children
  let signature := parts.filterMap FunctionPart.signature?
  return { f with
    signature := { f.signature with
      parameters := signature.filterMap SignaturePart.parameter?
      variadic := signature.contains .more }
    locals := parts.flatMap FunctionPart.declared }

end Function

/-! ## Variables of a file -/

namespace Variable

def addAttribute (e : Entry) (v : Variable) (a : Attribute) : Build Variable :=
  match a.name with
  | .name => do return { v with name := ← e.text a }
  | .location => do
      match ← e.location? a with
      | some (.address n) => return { v with location := some (.address n), address := some n }
      | location => return { v with location }
  | .mangled => do return { v with mangled := ← e.text? a }
  | .globalRef | .globalRefByName => return v
  | .fundType | .userDefType | .modFundType | .modUserDefType => do
      return { v with type := (← e.type? a).getD .integer }
  | _ => do e.unknownAttribute a; return v

def ofEntry (e : Entry) : Build Variable :=
  Build.refine (addAttribute e)
    { offset := e.offset, name := "", isGlobal := e.tag = .globalVariable, type := .integer
      address := none, mangled := none, location := none }
    e.attributes

end Variable

end DwarfOne
