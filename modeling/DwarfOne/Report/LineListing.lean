/-
# `Report.LineListing` — the line tables as they are
-/
import DwarfOne.Record.DebugInfo
import DwarfOne.Text.Style

namespace DwarfOne

/-- `7` or, with a position, `7:3`. -/
def LineEntry.place (e : LineEntry) : String :=
  match e.position with
  | some position => Numeral.decimal e.line.toNat ++ ":" ++ Numeral.decimal position.toNat
  | none => Numeral.decimal e.line.toNat

def LineTable.listing (paint : Paint) (t : LineTable) : String :=
  let heading :=
    paint .treeTag (Numeral.offset t.offset.toNat) ++ ": start " ++
      Numeral.offset t.start.toNat ++ ", " ++ Numeral.decimal t.entries.length ++ " entries\n"
  let entry (e : LineEntry) : String :=
    "    line " ++ e.place ++ " at " ++ Numeral.offset e.address.toNat ++ "\n"
  heading ++ String.join (t.entries.map entry)

/-- The table at an offset, or all of them, with a blank line between. -/
def DebugInfo.linesText (paint : Paint) (d : DebugInfo) (offset : Option UInt32) : String :=
  let wanted := d.lineTables.filter fun t => offset.all (· = t.offset)
  if wanted.isEmpty then "No line tables found.\n"
  else "\n".intercalate (wanted.map (LineTable.listing paint))

end DwarfOne
