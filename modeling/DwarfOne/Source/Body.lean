/-
# `Source.Body` — types written out

The bodies of classes and enumerations, and with them the fronts and backs of
all types without a name.  Arrays and routines bind tighter than pointers, so
a pointer to one of them stands in parentheses: `char (*p)[4]`.
-/
import DwarfOne.Source.Signature

namespace DwarfOne.Source

open Token

variable (s : Source) (nested : Nested)

/-! ## Remarks -/

def offsetRemark (offset : UInt32) : List String :=
  if s.settings.remarks.entryOffsets then ["DWARF: " ++ Numeral.upperOffset offset.toNat] else []

/-- A remark on a line of its own, unless there is nothing to say. -/
def leadingRemark (indent : Nat) (parts : List String) : List Token :=
  if parts.isEmpty then [] else [remark (", ".intercalate parts)] ++ newline indent

/-- A remark after the code on a line, unless there is nothing to say. -/
def trailingRemark (parts : List String) : List Token :=
  if parts.isEmpty then [] else [space, remark (", ".intercalate parts)]

/-! ## Enumerations -/

def enumeratorValue (value : Int) : String :=
  if !s.settings.hexEnumerators then Numeral.signed value
  else if value < 0 then "-" ++ Numeral.upperOffset value.natAbs
  else Numeral.upperOffset value.natAbs

/-- Enumerators after one with the value `previous`.  A value that is one more
is only shown on request. -/
def enumerators (indent : Nat) : Int → List Enumerator → List Token
  | _, [] => []
  | previous, e :: rest =>
      let value :=
        if e.value ≠ previous + 1 || s.settings.explicitEnumerators then
          [ofPunctuation " = ", ofLiteral (s.enumeratorValue e.value)]
        else []
      let comma := if rest.isEmpty then [] else [ofPunctuation ","]
      newline indent ++ [ofIdentifier e.name] ++ value ++ comma ++ enumerators indent e.value rest

/-- The name of a type that is not written where it is used. -/
def ownName (isInline : Bool) (name : String) : List Token :=
  if isInline || name.isEmpty then [] else [space, ofIdentifier name]

def closing (isInline : Bool) : List Token :=
  if isInline then [ofPunctuation "\x7d"] else [ofPunctuation "\x7d", ofPunctuation ";"]

def enumeration (indent : Nat) (e : EnumType) (isInline : Bool) : List Token :=
  leadingRemark indent (s.offsetRemark e.offset) ++ [ofKeyword "enum"] ++
    ownName isInline e.name ++ newline indent ++ [ofPunctuation "\x7b"] ++
    s.enumerators (indent + 1) (-1) e.enumerators ++ newline indent ++ closing isInline

/-! ## Classes -/

/-- A base with what sets it off from the one before. -/
def base (indent : Nat) (kind : ClassKind) (lead : String) (b : Base) :
    Except RenderError (List Token) := do
  let virtual := if b.isVirtual then [ofKeyword "virtual", space] else []
  let access :=
    if b.access ≠ kind.implicitAccess then [ofKeyword b.access.keyword, space] else []
  return [ofPunctuation lead] ++ virtual ++ access ++ (← s.typeName nested indent b.type)

def bases (indent : Nat) (kind : ClassKind) (lead : String) :
    List Base → Except RenderError (List Token)
  | [] => return []
  | b :: rest => do
      let first ← s.base nested indent kind lead b
      return first ++ (← bases indent kind ", " rest)

def typedef (indent : Nat) (t : Typedef) : Except RenderError (List Token) := do
  let declared ← s.declaration nested indent t.type t.name
  return [ofKeyword "typedef", space] ++ declared ++ [ofPunctuation ";"]

def bitRemarks (m : Member) : List String :=
  let bitOffset :=
    match m.bitOffset with
    | some n =>
        if s.settings.remarks.memberBitOffsets then ["Bit Offset: " ++ Numeral.decimal n.toNat]
        else []
    | none => []
  let bitSize :=
    match m.bitSize with
    | some n =>
        if s.settings.remarks.memberBitSizes then ["Bit Size: " ++ Numeral.decimal n.toNat] else []
    | none => []
  bitOffset ++ bitSize

def memberRemarks (m : Member) : List String :=
  let place :=
    if s.settings.remarks.memberOffsets then
      ["Offset: " ++ Numeral.upperOffset m.byteOffset.toNat]
    else []
  place ++ s.offsetRemark m.offset ++ s.bitRemarks m

def member (indent : Nat) (m : Member) : Except RenderError (List Token) := do
  let declared ← s.declaration nested indent m.type m.name
  let width :=
    match m.bitSize with
    | some n => [ofPunctuation " : ", ofLiteral (Numeral.decimal n.toNat)]
    | none => []
  return declared ++ width ++ [ofPunctuation ";"] ++ trailingRemark (s.memberRemarks m)

/-- The label before an item, if its access is not the one in force.  Labels
are not indented, and a blank line comes before all but the first. -/
def accessLabel (inForce access : Access) (isFirst : Bool) : List Token :=
  if access = inForce then []
  else
    (if isFirst then [lineBreak] else [lineBreak, lineBreak]) ++
      [ofKeyword access.keyword, ofPunctuation ":"]

/-- Items on lines of their own, with labels where the access changes. -/
def labelled (indent : Nat) (inForce : Access) (isFirst : Bool) :
    List (Access × List Token) → List Token
  | [] => []
  | (access, item) :: rest =>
      accessLabel inForce access isFirst ++ newline indent ++ item ++
        labelled indent access false rest

/-- The access in force after some items. -/
def lastAccess (start : Access) (items : List (Access × List Token)) : Access :=
  (items.getLast?.map Prod.fst).getD start

/-- What is inside a class: typedefs, members, member functions.  A group ends
with a line end; without any group there is one still. -/
def classItems (indent : Nat) (kind : ClassKind) (typedefs : List (List Token))
    (members functions : List (Access × List Token)) : List Token :=
  let inside := indent + 1
  let group (items : List Token) := if items.isEmpty then [] else items ++ newline indent
  let aliases := typedefs.flatMap (newline inside ++ ·)
  let data := labelled inside kind.implicitAccess true members
  let code := labelled inside (lastAccess kind.implicitAccess members) true functions
  let all := group aliases ++ group data ++ group code
  if all.isEmpty then newline indent else all

def classType (indent : Nat) (c : ClassType) (isInline : Bool) :
    Except RenderError (List Token) := do
  let size :=
    if s.settings.remarks.classSizes then ["Size: " ++ Numeral.upperOffset c.byteSize.toNat]
    else []
  let bases ← s.bases nested indent c.kind " : " c.bases
  let inside := indent + 1
  let typedefs ← c.typedefs.mapM (s.typedef nested inside)
  let members ← c.members.mapM fun m => return (m.access, ← s.member nested inside m)
  let functions ← (c.functions.filterMap (s.program.functions[·]?)).mapM fun f =>
    return (f.access, ← s.functionDeclaration nested inside f true)
  return leadingRemark indent (size ++ s.offsetRemark c.offset) ++ [ofKeyword c.kind.keyword] ++
    ownName isInline c.name ++ bases ++ newline indent ++ [ofPunctuation "\x7b"] ++
    classItems indent c.kind typedefs members functions ++ closing isInline

/-! ## Fronts and backs of types written out -/

/-- `int C::*` or, for member functions, `void (C::*`. -/
def memberPointerFront (indent : Nat) (p : MemberPointerType) (ms : List Modifier) :
    Except RenderError (List Token) := do
  let target ← s.front nested indent p.type
  let owner ← s.nameOf p.owner
  return target.tokens ++ (if target.tight then [] else [space]) ++
    [ofIdentifier owner, ofPunctuation "::*"] ++ modifiers ms

def writtenFront (indent : Nat) (t : UserType) (ms : List Modifier) : Except RenderError Front := do
  match t with
  | .ofClass c =>
      return { tokens := (← s.classType nested indent c true) ++ modifiers ms, tight := false }
  | .ofEnum e => return { tokens := s.enumeration indent e true ++ modifiers ms, tight := false }
  | .ofArray a =>
      let element ← s.front nested indent a.element
      if ms.isEmpty then return element
      else
        let opening := ofPunctuation (if element.tight then "(" else " (")
        return { tokens := element.tokens ++ [opening] ++ modifiers ms, tight := true }
  | .ofRoutine r =>
      let returned ← s.front nested indent r.returnType
      return { tokens := returned.tokens ++ [ofPunctuation " ("] ++ modifiers ms, tight := true }
  | .ofMemberPointer p =>
      return { tokens := ← s.memberPointerFront nested indent p ms, tight := true }

def writtenBack (indent : Nat) (t : UserType) (ms : List Modifier) :
    Except RenderError (List Token) := do
  match t with
  | .ofClass _ | .ofEnum _ => return []
  | .ofArray a =>
      let close := if ms.isEmpty then [] else [ofPunctuation ")"]
      return close ++ dimensions a ++ (← s.back nested indent a.element)
  | .ofRoutine r =>
      let parameters ← s.parameters nested indent false r
      return [ofPunctuation ")"] ++ parameters ++ (← s.back nested indent r.returnType)
  | .ofMemberPointer p => s.back nested indent p.type

/-- Types written out inside one another to a given depth. -/
def nestedTo : Nat → Nested
  | 0 => .refuse
  | depth + 1 =>
      let inner := nestedTo depth
      { front := s.writtenFront inner, back := s.writtenBack inner }

/-- Types written out inside one another.  A chain longer than there are types
would come round to where it has been. -/
def writtenOut : Nested :=
  s.nestedTo s.program.types.size

end DwarfOne.Source
