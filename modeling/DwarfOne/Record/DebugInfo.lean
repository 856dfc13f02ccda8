/-
# `Record.DebugInfo` — the decoded debug sections

All records stand in one array and all attributes in another; a record knows
which stretch of the second is its own.  A record's offset in the section is
what other records, and the whole program view built on top, know it by.
-/
import DwarfOne.Record.Frame
import DwarfOne.Record.Links
import DwarfOne.LineTable
import DwarfOne.Image.Basic
import Std.Data.TreeMap

namespace DwarfOne

structure Record where
  /-- Where the record starts in the section. -/
  offset : UInt32
  length : UInt32
  tag : Tag
  /-- Its attributes are those from `attributesStart` up to `attributesStop`. -/
  attributesStart : Nat
  attributesStop : Nat
  deriving DecidableEq, Repr

namespace Record

/-- What is found where there is no record. -/
def null : Record :=
  { offset := 0, length := 0, tag := .padding, attributesStart := 0, attributesStop := 0 }

def isNull (r : Record) : Bool :=
  r.length < 8

/-- Null records and those with the padding tag carry no information. -/
def isPadding (r : Record) : Bool :=
  r.isNull || r.tag = .padding

end Record

structure DebugInfo where
  order : ByteOrder
  records : Array Record
  attributes : Array Attribute
  /-- The place of the record at an offset. -/
  places : Std.TreeMap UInt32 Nat
  links : Links
  lineTables : List LineTable

namespace DebugInfo

/-- Lays the records' attributes end to end. -/
def lay (raw : List RawRecord) : Array Record × Array Attribute :=
  raw.foldl
    (fun (records, attributes) r =>
      let start := attributes.size
      let attributes := attributes ++ r.attributes.toArray
      let record :=
        { offset := r.offset, length := r.length, tag := r.tag
          attributesStart := start, attributesStop := attributes.size }
      (records.push record, attributes))
    (#[], #[])

/-- The place of each record by its offset. -/
def placesOf (records : Array Record) : Std.TreeMap UInt32 Nat :=
  records.zipIdx.foldl (fun places (r, i) => places.insert r.offset i) ∅

/-- Where a record's sibling attribute points. -/
def siblingTarget (attributes : List Attribute) : Option UInt32 :=
  attributes.findSome? fun a =>
    match a.name, a.value with
    | .sibling, .reference target => some target
    | _, _ => none

def outline (attributes : Array Attribute) (r : Record) : Outline where
  offset := r.offset
  isPadding := r.isPadding
  target := siblingTarget (attributes.extract r.attributesStart r.attributesStop).toList

/-- Decodes the debug section and, if there is one, the line section. -/
def decode (order : ByteOrder) (debug : List UInt8) (line : Option (List UInt8)) :
    Except DebugError DebugInfo := do
  discard (survey order debug)
  let (records, attributes) := lay (← RawRecord.readAll order debug)
  let places := placesOf records
  let links := Links.ofOutlines (records.map (outline attributes)) (places[·]?)
  let lineTables ←
    match line with
    | some bytes => LineTable.decodeAll order bytes
    | none => pure []
  return { order, records, attributes, places, links, lineTables }

/-- The debug information of an image.  Only the line section may be missing. -/
def ofImage (image : Image) : Except DebugError DebugInfo :=
  match image.sectionDataByName? ".debug" with
  | none => .error (.sectionNotFound ".debug")
  | some debug => decode image.order debug (image.sectionDataByName? ".line")

/-! ## Looking at records -/

def record (d : DebugInfo) (i : Nat) : Record :=
  d.records.getD i .null

/-- The place of the record at an offset. -/
def find? (d : DebugInfo) (offset : UInt32) : Option Nat :=
  d.places[offset]?

def attributesOf (d : DebugInfo) (i : Nat) : List Attribute :=
  let r := d.record i
  (d.attributes.extract r.attributesStart r.attributesStop).toList

/-- The text of a record's first name attribute, if it is one. -/
def name? (d : DebugInfo) (i : Nat) : Option String :=
  match (d.attributesOf i).find? (·.name = .name) with
  | some { value := .string text, .. } => some text
  | _ => none

/-- `DW_TAG_member (x)`, as warnings name a record. -/
def describe (d : DebugInfo) (i : Nat) : String :=
  (d.record i).tag.text ++ " (" ++ (d.name? i).getD "" ++ ")"

def sibling (d : DebugInfo) (i : Nat) : Option Nat :=
  d.links.sibling.getD i none

def firstChild (d : DebugInfo) (i : Nat) : Option Nat :=
  d.links.firstChild.getD i none

def parent (d : DebugInfo) (i : Nat) : Option Nat :=
  d.links.parent.getD i none

def siblingCount (d : DebugInfo) (i : Nat) : Nat :=
  d.links.siblingCount.getD i 0

def childCount (d : DebugInfo) (i : Nat) : Nat :=
  d.links.childCount.getD i 0

/-- The records of the topmost level. -/
def roots (d : DebugInfo) : List Nat :=
  Links.chain d.links.sibling (if d.records.isEmpty then none else some 0)

def children (d : DebugInfo) (i : Nat) : List Nat :=
  Links.chain d.links.sibling (d.firstChild i)

def lineTable? (d : DebugInfo) (offset : UInt32) : Option LineTable :=
  d.lineTables.find? (·.offset = offset)

end DebugInfo

end DwarfOne
