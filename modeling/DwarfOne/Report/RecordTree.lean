/-
# `Report.RecordTree` — the records as they are

Each record has a heading and a line for each attribute; the records inside
it follow, indented.  Padding is left out, and so is the sibling attribute,
which the indentation shows.
-/
import DwarfOne.Payload.Location
import DwarfOne.Record.DebugInfo
import DwarfOne.Source.Fundamental
import DwarfOne.Text.Style

namespace DwarfOne

/-- A line of the tree, before it is styled. -/
inductive TreeLine
  | heading (level : Nat) (offset : UInt32) (tag : String)
  | property (level : Nat) (name value : String)
  deriving DecidableEq, Repr

namespace TreeLine

def text (paint : Paint) : TreeLine → String
  | .heading level offset tag =>
      Style.spaces (4 * level) ++ Numeral.offset offset.toNat ++ ": " ++ paint .treeTag tag
  | .property level name value =>
      Style.spaces (4 * (level + 1)) ++ paint .treeAttribute name ++ ": " ++ value

end TreeLine

namespace DebugInfo

/-- The value of an attribute.  Fundamental types and locations are decoded,
being hard to read. -/
def attributeText (d : DebugInfo) (a : Attribute) : String :=
  match a.name, a.value with
  | .fundType, .data2 id =>
      Numeral.offset id.toNat ++ " (" ++ FundamentalNames.default.name id ++ ")"
  | .location, .block block =>
      match Location.decode d.order block with
      | .ok location => location.text
      | .error cause => a.value.text ++ " (" ++ cause.message ++ ")"
  | _, value => value.text

/-- The lines of a record itself. -/
def recordLines (d : DebugInfo) (level i : Nat) : List TreeLine :=
  let r := d.record i
  let shown := (d.attributesOf i).filter (·.name ≠ .sibling)
  .heading level r.offset r.tag.text ::
    shown.map fun a => .property level a.name.text (d.attributeText a)

/-- The lines of a record and of those inside it, down to a depth.  Records
nest no deeper than there are records, which is the fuel. -/
def treeLines (d : DebugInfo) (depth : Option Nat) : Nat → Nat → Nat → List TreeLine
  | 0, _, _ => []
  | fuel + 1, level, i =>
      if (d.record i).isPadding then []
      else
        d.recordLines level i ++
          if depth.all (level < ·) then
            (d.children i).flatMap (treeLines d depth fuel (level + 1))
          else []

/-- The tree below the record at an offset, or the whole of it. -/
def tree (d : DebugInfo) (offset : Option UInt32) (depth : Option Nat) :
    Option (List TreeLine) :=
  let below (starts : List Nat) := starts.flatMap (d.treeLines depth d.records.size 0)
  match offset with
  | none => some (below d.roots)
  | some offset => (d.find? offset).map fun i => below [i]

def treeText (paint : Paint) (d : DebugInfo) (offset : Option UInt32) (depth : Option Nat) :
    String :=
  match d.tree offset depth with
  | some lines => String.join (lines.map fun line => line.text paint ++ "\n")
  | none => "No record at offset " ++ Numeral.offset (offset.getD 0).toNat ++ ".\n"

end DebugInfo

end DwarfOne
