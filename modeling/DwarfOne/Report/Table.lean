/-
# `Report.Table` — columns of text

A row of a table is as tall as its tallest cell and a column as wide as its
widest.  A space stands on either side of a cell, except before the first
column.  An explanation of the columns may follow.
-/
import DwarfOne.Text.Style

namespace DwarfOne

inductive Alignment
  | left
  | right
  deriving DecidableEq, Repr

namespace Grid

/-- A cell is a text of one or more lines. -/
abbrev Cell := List String

/-- The columns a cell takes. -/
def Cell.width (cell : Cell) : Nat :=
  (cell.map Width.columns).foldl max 0

/-- The width of the column at a place. -/
def width (rows : List (List Cell)) (i : Nat) : Nat :=
  (rows.map fun row => Cell.width (row.getD i [])).foldl max 0

/-- The lines a row takes. -/
def height (row : List Cell) : Nat :=
  (row.map List.length).foldl max 0

def pad (alignment : Alignment) (width : Nat) (text : String) : String :=
  let gap := Style.spaces (width - Width.columns text)
  match alignment with
  | .left => text ++ gap
  | .right => gap ++ text

/-- Texts one after another, each padded and with its margins. -/
def line (layout : List (Alignment × Nat)) (texts : List String) : String :=
  String.join <| (layout.zip texts).mapIdx fun i ((alignment, width), text) =>
    (if i = 0 then "" else " ") ++ pad alignment width text ++ " "

/-- The lines of a row.  A cell with fewer than the row ends in blank ones. -/
def rowLines (layout : List (Alignment × Nat)) (row : List Cell) : List String :=
  (List.range (height row)).map fun k => line layout (row.map fun cell => cell.getD k "")

/-- Rows of cells, lined up. -/
def text (alignments : List Alignment) (rows : List (List String)) : String :=
  let rows := rows.map fun row => row.map Text.pieces
  let layout := alignments.mapIdx fun i alignment => (alignment, width rows i)
  "\n".intercalate (if alignments.isEmpty then [] else rows.flatMap (rowLines layout))

end Grid

/-- Names with what they mean, one to a line. -/
def explanations (paint : Paint) (entries : List (String × String)) : String :=
  "\n".intercalate <| entries.map fun (name, help) =>
    paint .explainTitle name ++ ": " ++ paint .explainText help

inductive ColumnKind
  | text
  | number
  /-- Offsets and addresses, in hexadecimal. -/
  | hex
  deriving DecidableEq, Repr

def ColumnKind.alignment : ColumnKind → Alignment
  | .text => .left
  | .number | .hex => .right

structure Column where
  header : String
  kind : ColumnKind
  help : String
  deriving DecidableEq, Repr

/-- What the explanation says of a column. -/
def Column.explanation (c : Column) : String :=
  match c.kind with
  | .hex => c.help ++ " (hex)"
  | .text | .number => c.help

/-- What to print around a table. -/
structure TableOptions where
  titles : Bool
  explain : Bool
  deriving DecidableEq, Repr

structure Table where
  columns : List Column
  rows : List (List String)
  deriving DecidableEq, Repr

namespace Table

/-- A cell as it is shown; an empty one holds its place. -/
def field (paint : Paint) (value : String) : String :=
  paint .tableField (if value.isEmpty then " " else value)

/-- The headers and the dashes below them. -/
def titleRows (paint : Paint) (t : Table) : List (List String) :=
  [t.columns.map fun c => paint .tableHeader c.header,
   t.columns.map fun c =>
     paint .tableSeparator (String.ofList (List.replicate c.header.utf8ByteSize '-'))]

def body (paint : Paint) (t : Table) (titles : Bool) : String :=
  let rows := t.rows.map (·.map (field paint))
  Grid.text (t.columns.map (·.kind.alignment))
    (if titles then t.titleRows paint ++ rows else rows)

def text (paint : Paint) (t : Table) (options : TableOptions) : String :=
  let explained :=
    if options.explain then
      "\n" ++ explanations paint (t.columns.map fun c => (c.header, c.explanation)) ++ "\n"
    else ""
  t.body paint options.titles ++ "\n" ++ explained

end Table

structure Item where
  name : String
  value : String
  help : String
  deriving DecidableEq, Repr

namespace Item

/-- Names and values side by side. -/
def listText (paint : Paint) (items : List Item) (explain : Bool) : String :=
  let rows := items.map fun item => [item.name, paint .tableField item.value]
  let explained :=
    if explain then
      "\n" ++ explanations paint (items.map fun item => (item.name, item.help)) ++ "\n"
    else ""
  Grid.text [.left, .left] rows ++ "\n" ++ explained

end Item

end DwarfOne
