/-
# `Program.Types` — classes, enumerations, arrays and the other types

Each kind of record has a value to start from and a function that says what
an attribute adds to it.  If an attribute comes twice the later one counts.
-/
import DwarfOne.Payload.Subscript
import DwarfOne.Program.Build
import DwarfOne.Program.Entity

namespace DwarfOne

/-! ## Members, bases and typedefs -/

namespace Member

def addAttribute (e : Entry) (m : Member) (a : Attribute) : Build Member :=
  match a.name with
  | .name => do return { m with name := ← e.text a }
  | .publicAccess => return { m with access := .publicly }
  | .protectedAccess => return { m with access := .protectedly }
  | .privateAccess => return { m with access := .privately }
  | .location => do
      -- a member's location adds a constant to the address of its class
      match ← e.location? a with
      | some (.constant n) => return { m with byteOffset := n }
      | _ => return { m with byteOffset := 0 }
  | .bitOffset => do return { m with bitOffset := (← e.number? a).map UInt32.toUInt16 }
  | .bitSize => do return { m with bitSize := ← e.number? a }
  | .byteSize => return m
  | .fundType | .userDefType | .modFundType | .modUserDefType => do
      return { m with type := (← e.type? a).getD .integer }
  | _ => do e.unknownAttribute a; return m

def ofEntry (kind : ClassKind) (e : Entry) : Build Member :=
  Build.refine (addAttribute e)
    { offset := e.offset, name := "", type := .integer, access := kind.implicitAccess
      byteOffset := 0, bitOffset := none, bitSize := none }
    e.attributes

end Member

namespace Base

def addAttribute (e : Entry) (b : Base) (a : Attribute) : Build Base :=
  match a.name with
  | .publicAccess => return { b with access := .publicly }
  | .protectedAccess => return { b with access := .protectedly }
  | .privateAccess => return { b with access := .privately }
  | .isVirtual => return { b with isVirtual := true }
  | .name | .location => return b
  | .fundType | .userDefType | .modFundType | .modUserDefType => do
      return { b with type := (← e.type? a).getD .integer }
  | _ => do e.unknownAttribute a; return b

def ofEntry (kind : ClassKind) (e : Entry) : Build Base :=
  Build.refine (addAttribute e)
    { access := kind.implicitAccess, isVirtual := false, type := .integer } e.attributes

end Base

namespace Typedef

def addAttribute (e : Entry) (t : Typedef) (a : Attribute) : Build Typedef :=
  match a.name with
  | .name => do return { t with name := ← e.text a }
  | .fundType | .userDefType | .modFundType | .modUserDefType => do
      return { t with type := (← e.type? a).getD .integer }
  | _ => do e.unknownAttribute a; return t

def ofEntry (e : Entry) : Build Typedef :=
  Build.refine (addAttribute e) { offset := e.offset, name := "", type := .integer } e.attributes

end Typedef

/-! ## Classes -/

/-- What may stand inside a class. -/
inductive ClassPart
  | member (m : Member)
  | base (b : Base)
  | typedef (t : Typedef)
  deriving DecidableEq, Repr

namespace ClassPart

def ofEntry (kind : ClassKind) (parent e : Entry) : Build (Option ClassPart) :=
  match e.tag with
  | .member => do return some (.member (← Member.ofEntry kind e))
  | .inheritance => do return some (.base (← Base.ofEntry kind e))
  | .typedef => do return some (.typedef (← Typedef.ofEntry e))
  | _ => do e.unknown parent.describe; return none

def member? : ClassPart → Option Member
  | .member m => some m
  | _ => none

def base? : ClassPart → Option Base
  | .base b => some b
  | _ => none

def typedef? : ClassPart → Option Typedef
  | .typedef t => some t
  | _ => none

end ClassPart

namespace ClassType

def addAttribute (e : Entry) (c : ClassType) (a : Attribute) : Build ClassType :=
  match a.name with
  | .name => do return { c with name := ← e.text a }
  | .byteSize => do return { c with byteSize := (← e.number? a).getD 0 }
  | _ => do e.unknownAttribute a; return c

def ofEntry (kind : ClassKind) (e : Entry) : Build ClassType := do
  let c ← Build.refine (addAttribute e)
    { offset := e.offset, kind, name := "", byteSize := 0, members := [], bases := []
      typedefs := [], functions := [] }
    e.attributes
  let parts ← Build.gather (ClassPart.ofEntry kind e) e.children
  return { c with
    members := parts.filterMap ClassPart.member?
    bases := parts.filterMap ClassPart.base?
    typedefs := parts.filterMap ClassPart.typedef? }

end ClassType

/-! ## Enumerations and arrays -/

namespace EnumType

def addAttribute (e : Entry) (t : EnumType) (a : Attribute) : Build EnumType :=
  match a.name with
  | .name => do return { t with name := ← e.text a }
  | .byteSize => do return { t with byteSize := ← e.number? a }
  | .elementList => do
      let found ← e.block? a Enumerator.decodeList
      return { t with enumerators := found.getD t.enumerators }
  | _ => do e.unknownAttribute a; return t

def ofEntry (e : Entry) : Build EnumType :=
  Build.refine (addAttribute e)
    { offset := e.offset, name := "", byteSize := none, enumerators := [] } e.attributes

end EnumType

namespace ArrayType

def addAttribute (e : Entry) (t : ArrayType) (a : Attribute) : Build ArrayType :=
  match a.name with
  | .name => do return { t with name := ← e.text a }
  | .ordering | .byteSize => return t
  | .subscrData => do
      match ← e.block? a SubscriptData.decode with
      | none => return t
      | some data =>
          return { t with
            element := data.element.getD t.element
            dimensions := data.subscripts.map Subscript.dimension? }
  | _ => do e.unknownAttribute a; return t

def ofEntry (e : Entry) : Build ArrayType :=
  Build.refine (addAttribute e)
    { offset := e.offset, name := "", element := .integer, dimensions := [] } e.attributes

end ArrayType

/-! ## Pointers to members -/

namespace MemberPointerType

def addAttribute (e : Entry) (t : MemberPointerType) (a : Attribute) :
    Build MemberPointerType :=
  match a.name with
  | .name => do return { t with name := ← e.text a }
  | .containingType => do return { t with owner := (← e.offset? a).getD 0 }
  | .fundType | .userDefType | .modFundType | .modUserDefType => do
      return { t with type := (← e.type? a).getD .integer }
  | _ => do e.unknownAttribute a; return t

def ofEntry (e : Entry) : Build MemberPointerType :=
  Build.refine (addAttribute e)
    { offset := e.offset, name := "", type := .integer, owner := 0 } e.attributes

end MemberPointerType

end DwarfOne
