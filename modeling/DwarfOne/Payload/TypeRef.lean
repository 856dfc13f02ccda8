/-
# `Payload.TypeRef` — the type of a thing

A type is a base, fundamental or described by another record, under any
number of pointers and references.  `const` and `volatile` may stand on the
base and on each of the modifiers.

The bytes of a modified type list the modifiers from the outside in.  A
qualifier belongs to the next pointer or reference, except that one in the
last place belongs to the base.
-/
import DwarfOne.Record.Attribute

namespace DwarfOne

inductive BaseType
  | fundamental (id : UInt16)
  /-- The offset of the record that describes the type. -/
  | user (offset : UInt32)
  deriving DecidableEq, Repr

inductive ModifierKind
  | pointer
  | reference
  deriving DecidableEq, Repr

structure Modifier where
  kind : ModifierKind
  isConst : Bool
  isVolatile : Bool
  deriving DecidableEq, Repr

structure TypeRef where
  base : BaseType
  isConst : Bool
  isVolatile : Bool
  /-- Innermost first. -/
  modifiers : List Modifier
  deriving DecidableEq, Repr

namespace TypeRef

def ofBase (base : BaseType) : TypeRef :=
  { base, isConst := false, isVolatile := false, modifiers := [] }

def fundamental (id : UInt16) : TypeRef :=
  ofBase (.fundamental id)

def user (offset : UInt32) : TypeRef :=
  ofBase (.user offset)

def integer : TypeRef := fundamental 0x0007

def void : TypeRef := fundamental 0x0014

def userOffset? (ty : TypeRef) : Option UInt32 :=
  match ty.base with
  | .user offset => some offset
  | .fundamental _ => none

/-- The modifiers the bytes add to a type, with the qualifiers that wait for
the next pointer or reference.  Each new modifier is inside those before. -/
def addModifiers (ty : TypeRef) (isConst isVolatile : Bool) : List UInt8 → TypeRef
  | [] => ty
  | 1 :: bytes =>
      let ty := { ty with modifiers := ⟨.pointer, isConst, isVolatile⟩ :: ty.modifiers }
      ty.addModifiers false false bytes
  | 2 :: bytes =>
      let ty := { ty with modifiers := ⟨.reference, isConst, isVolatile⟩ :: ty.modifiers }
      ty.addModifiers false false bytes
  | [3] => { ty with isConst := true }
  | [4] => { ty with isVolatile := true }
  | 3 :: bytes => ty.addModifiers true isVolatile bytes
  | 4 :: bytes => ty.addModifiers isConst true bytes
  | _ :: bytes => ty.addModifiers isConst isVolatile bytes

def withModifiers (base : BaseType) (bytes : List UInt8) : TypeRef :=
  (ofBase base).addModifiers false false bytes

/-- A block of modifier bytes that ends in a base of `width` bytes. -/
def decodeModified (order : ByteOrder) (width : Nat) (base : Nat → BaseType)
    (block : List UInt8) : Except PayloadError TypeRef :=
  if block.length < width then .error (.truncated ⟨0, width⟩)
  else
    let split := block.length - width
    .ok (withModifiers (base (order.value (block.drop split))) (block.take split))

/-- The type that one of the four type attributes gives. -/
def decode (order : ByteOrder) (a : Attribute) : Except PayloadError TypeRef :=
  match a.name with
  | .fundType => do return fundamental (← a.value.asNumber).toUInt16
  | .userDefType => do return user (← a.value.asOffset)
  | .modFundType => do
      decodeModified order 2 (fun n => .fundamental (UInt16.ofNat n)) (← a.value.asBlock)
  | .modUserDefType => do
      decodeModified order 4 (fun n => .user (UInt32.ofNat n)) (← a.value.asBlock)
  | _ => .error (.wrongKind "a type" a.value.kind)

end TypeRef

end DwarfOne
