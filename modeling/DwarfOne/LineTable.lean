/-
# `LineTable` — source lines and their addresses

The line section holds one table for each compile unit.  A table gives its
own length, the address its code starts at, and entries of ten bytes whose
addresses are relative to that start.
-/
import DwarfOne.Record.Error

namespace DwarfOne

structure LineEntry where
  line : UInt32
  /-- The character position, or none for the whole line. -/
  position : Option UInt16
  address : UInt32
  deriving DecidableEq, Repr

namespace LineEntry

/-- The entry that the next ten bytes hold for a table starting at `start`. -/
def read (start : UInt32) : Reader DebugError LineEntry := do
  let line ← Reader.word
  let position ← Reader.half
  let delta ← Reader.word
  return { line
           position := if position = 0xffff then none else some position
           address := start + delta }

end LineEntry

structure LineTable where
  /-- Where the table starts in the section.  Units refer to it by this. -/
  offset : UInt32
  start : UInt32
  entries : List LineEntry
  deriving DecidableEq, Repr

namespace LineTable

/-- What follows a table's length, within the table.  A tail too short for
an entry is passed over. -/
def readBody (offset : Nat) : Reader DebugError LineTable := do
  let start ← Reader.word
  let entries ← Reader.collect do
    if (← get).remaining < 10 then return none
    return some (← LineEntry.read start)
  return { offset := UInt32.ofNat offset, start, entries }

/-- The next table, unless fewer bytes are left than its length takes. -/
def read? : Reader DebugError (Option LineTable) := do
  let c ← get
  if c.remaining < 4 then return none
  let length ← Reader.word
  if length < 8 ∨ c.remaining < length.toNat then
    Reader.fail (.badLineTable c.offset length)
  else
    let table ← (readBody c.offset).on ((← get).limit (length.toNat - 4))
    set (c.advance length.toNat)
    return some table

/-- The tables of a line section, in order. -/
def decodeAll (order : ByteOrder) (bytes : List UInt8) : Except DebugError (List LineTable) :=
  (Reader.collect read?).on (.ofBytes order bytes 0)

end LineTable

end DwarfOne
