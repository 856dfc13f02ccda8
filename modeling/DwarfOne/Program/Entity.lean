/-
# `Program.Entity` — what the debug records describe

Units, classes, enumerations, arrays, routine types, functions and variables,
as a C++ programmer knows them.  Each is known by the offset of the record it
comes from, and refers to others by theirs.
-/
import DwarfOne.LineTable
import DwarfOne.Payload.Enumerator
import DwarfOne.Payload.Location
import DwarfOne.Payload.TypeRef

namespace DwarfOne

inductive Access
  | publicly
  | protectedly
  | privately
  deriving DecidableEq, Repr

def Access.keyword : Access → String
  | .publicly => "public"
  | .protectedly => "protected"
  | .privately => "private"

inductive ClassKind
  | classKind
  | structKind
  | unionKind
  deriving DecidableEq, Repr

namespace ClassKind

def keyword : ClassKind → String
  | .classKind => "class"
  | .structKind => "struct"
  | .unionKind => "union"

/-- The access of members and bases that are not marked. -/
def implicitAccess : ClassKind → Access
  | .classKind => .privately
  | .structKind | .unionKind => .publicly

end ClassKind

structure Member where
  offset : UInt32
  name : String
  type : TypeRef
  access : Access
  /-- Where the member is in its class. -/
  byteOffset : UInt32
  bitOffset : Option UInt16
  bitSize : Option UInt32
  deriving DecidableEq, Repr

def Member.isBitfield (m : Member) : Bool :=
  m.bitOffset.isSome || m.bitSize.isSome

structure Base where
  access : Access
  isVirtual : Bool
  type : TypeRef
  deriving DecidableEq, Repr

structure Typedef where
  offset : UInt32
  name : String
  type : TypeRef
  deriving DecidableEq, Repr

structure ClassType where
  offset : UInt32
  kind : ClassKind
  name : String
  byteSize : UInt32
  members : List Member
  bases : List Base
  typedefs : List Typedef
  /-- Known only once every function is. -/
  functions : List UInt32
  deriving DecidableEq, Repr

structure EnumType where
  offset : UInt32
  name : String
  byteSize : Option UInt32
  enumerators : List Enumerator
  deriving DecidableEq, Repr

structure ArrayType where
  offset : UInt32
  name : String
  element : TypeRef
  /-- Outermost first; none for one that is not constant. -/
  dimensions : List (Option UInt32)
  deriving DecidableEq, Repr

/-- A parameter or a local variable. -/
structure Local where
  offset : UInt32
  name : String
  type : TypeRef
  location : Option Location
  deriving DecidableEq, Repr

structure RoutineType where
  offset : UInt32
  name : String
  returnType : TypeRef
  parameters : List Local
  /-- Whether more arguments may follow. -/
  variadic : Bool
  deriving DecidableEq, Repr

structure MemberPointerType where
  offset : UInt32
  name : String
  /-- The type of the member pointed to. -/
  type : TypeRef
  /-- The class the member is in. -/
  owner : UInt32
  deriving DecidableEq, Repr

inductive UserType
  | ofClass (c : ClassType)
  | ofEnum (e : EnumType)
  | ofArray (a : ArrayType)
  | ofRoutine (r : RoutineType)
  | ofMemberPointer (p : MemberPointerType)
  deriving DecidableEq, Repr

namespace UserType

def name : UserType → String
  | .ofClass c => c.name
  | .ofEnum e => e.name
  | .ofArray a => a.name
  | .ofRoutine r => r.name
  | .ofMemberPointer p => p.name

def offset : UserType → UInt32
  | .ofClass c => c.offset
  | .ofEnum e => e.offset
  | .ofArray a => a.offset
  | .ofRoutine r => r.offset
  | .ofMemberPointer p => p.offset

end UserType

structure Function where
  signature : RoutineType
  isGlobal : Bool
  isInline : Bool
  /-- The code is at the addresses from `low` up to `high`. -/
  low : UInt32
  high : UInt32
  /-- The class of a member function. -/
  owner : Option UInt32
  access : Access
  mangled : Option String
  /-- Those of nested blocks too. -/
  locals : List Local
  /-- The line entries at the function's addresses. -/
  lines : List LineEntry
  deriving DecidableEq, Repr

namespace Function

def offset (f : Function) : UInt32 := f.signature.offset

def name (f : Function) : String := f.signature.name

/-- The size of the code, zero if its addresses are the wrong way round. -/
def size (f : Function) : Nat := f.high.toNat - f.low.toNat

/-- The object a member function is called on. -/
def this? (f : Function) : Option Local :=
  f.signature.parameters.find? (·.name = "this")

end Function

structure Variable where
  offset : UInt32
  name : String
  isGlobal : Bool
  type : TypeRef
  address : Option UInt32
  mangled : Option String
  location : Option Location
  deriving DecidableEq, Repr

/-- A compile unit. -/
structure File where
  offset : UInt32
  name : String
  producer : Option String
  language : Option UInt32
  directory : Option String
  low : Option UInt32
  high : Option UInt32
  /-- Where the unit says its line table is. -/
  statementList : Option UInt32
  /-- What the unit declares, in order. -/
  types : List UInt32
  functions : List UInt32
  vars : List UInt32
  /-- The line table given to the unit. -/
  lineTable : Option UInt32
  deriving DecidableEq, Repr

end DwarfOne
