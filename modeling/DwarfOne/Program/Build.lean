/-
# `Program.Build` — reading a record with an eye on what is odd

Walking the records leaves warnings behind, and a reference to a record that
is not there ends the walk.  `Build` is that discipline: a step is handed the
warnings kept so far and hands them on with its own.
-/
import DwarfOne.Payload.Location
import DwarfOne.Payload.TypeRef
import DwarfOne.Program.Diagnostic
import DwarfOne.Record.DebugInfo

namespace DwarfOne

/-- A reference to an offset at which no record starts. -/
inductive DanglingReference
  /-- Found while printing. -/
  | toType (offset : UInt32)
  /-- Found in an attribute of the record described. -/
  | inAttribute (offset : UInt32) (source : AttributeName) (entry : String)
  deriving DecidableEq, Repr

def DanglingReference.message : DanglingReference → String
  | .toType offset => "no debug record at offset " ++ Numeral.offset offset.toNat
  | .inAttribute offset source entry =>
      "no debug record at offset " ++ Numeral.offset offset.toNat ++ " for " ++ source.text ++
        " in entry " ++ entry

/-- A step of the walk.  From the warnings kept before it come a value and the
warnings kept after it. -/
def Build (α : Type) := Diagnostics → Except DanglingReference (α × Diagnostics)

namespace Build

instance : Monad Build where
  pure a := fun kept => .ok (a, kept)
  bind x f := fun kept =>
    match x kept with
    | .error e => .error e
    | .ok (a, kept) => f a kept

def warn (d : Diagnostic) : Build Unit := fun kept => .ok ((), kept.report d)

def stop {α : Type} (e : DanglingReference) : Build α := fun _ => .error e

/-- What a step makes of each item, in order, leaving out those it makes
nothing of. -/
def gather {α β : Type} (step : α → Build (Option β)) : List α → Build (List β)
  | [] => pure []
  | a :: rest => do
      let found ← step a
      let others ← gather step rest
      return found.toList ++ others

/-- A value refined by each attribute in turn. -/
def refine {α : Type} (step : α → Attribute → Build α) (start : α) : List Attribute → Build α
  | [] => pure start
  | a :: rest => do refine step (← step start a) rest

end Build

/-- A record seen as something to interpret. -/
structure Entry where
  debug : DebugInfo
  place : Nat

namespace Entry

def record (e : Entry) : Record := e.debug.record e.place

def offset (e : Entry) : UInt32 := e.record.offset

def tag (e : Entry) : Tag := e.record.tag

def attributes (e : Entry) : List Attribute := e.debug.attributesOf e.place

def describe (e : Entry) : String := e.debug.describe e.place

/-- The records inside, padding left out. -/
def children (e : Entry) : List Entry :=
  ((e.debug.children e.place).map (Entry.mk e.debug)).filter (!·.record.isPadding)

/-! ## Warnings -/

/-- The record does not belong where it is.  Padding belongs everywhere. -/
def unknown (e : Entry) (parent : String) : Build Unit :=
  if e.record.isPadding then pure ()
  else
    .warn
      { kind := .unknownEntry, offset := e.offset
        message := "Unknown child entry " ++ e.describe ++ " at offset " ++
          Numeral.upperOffset e.offset.toNat ++ " in parent entry " ++ parent }

/-- The attribute does not belong on the record.  The sibling attribute has
done its work already. -/
def unknownAttribute (e : Entry) (a : Attribute) : Build Unit :=
  if a.name = .sibling then pure ()
  else
    .warn
      { kind := .unknownAttribute, offset := a.offset
        message := "Unknown attribute " ++ a.name.text ++ " at offset " ++
          Numeral.upperOffset a.offset.toNat ++ " in entry " ++ e.describe }

/-- A payload, or a warning that it cannot be decoded. -/
def decoded {α : Type} (e : Entry) (a : Attribute) : Except PayloadError α → Build (Option α)
  | .ok value => pure (some value)
  | .error cause => do
      .warn
        { kind := .unknownAttribute, offset := a.offset
          message := "Couldn't decode " ++ a.name.text ++ " at offset " ++
            Numeral.upperOffset a.offset.toNat ++ " in entry " ++ e.describe ++ ": " ++
            cause.message }
      return none

/-! ## Values of attributes -/

def text? (e : Entry) (a : Attribute) : Build (Option String) :=
  e.decoded a a.value.asText

def text (e : Entry) (a : Attribute) : Build String := do
  return (← e.text? a).getD ""

def number? (e : Entry) (a : Attribute) : Build (Option UInt32) :=
  e.decoded a a.value.asNumber

def offset? (e : Entry) (a : Attribute) : Build (Option UInt32) :=
  e.decoded a a.value.asOffset

/-- A payload in a block. -/
def block? {α : Type} (e : Entry) (a : Attribute)
    (decode : ByteOrder → List UInt8 → Except PayloadError α) : Build (Option α) :=
  e.decoded a (a.value.asBlock >>= decode e.debug.order)

/-- A type.  The record it refers to must be there. -/
def type? (e : Entry) (a : Attribute) : Build (Option TypeRef) := do
  match ← e.decoded a (TypeRef.decode e.debug.order a) with
  | none => return none
  | some ty =>
      match ty.userOffset? with
      | none => return some ty
      | some offset =>
          if (e.debug.find? offset).isNone then
            .stop (.inAttribute offset a.name e.describe)
          else return some ty

/-- A location, with a warning if it folds to nothing simpler. -/
def location? (e : Entry) (a : Attribute) : Build (Option Location) := do
  let location ← e.block? a Location.decode
  match location with
  | some (.unrecognized ops) =>
      .warn
        { kind := .unrecognizedLocation, offset := a.offset
          message := "Unrecognized location " ++ (Location.unrecognized ops).text ++
            " at offset " ++ Numeral.upperOffset a.offset.toNat ++ " in entry " ++ e.describe }
  | _ => pure ()
  return location

end Entry

end DwarfOne
