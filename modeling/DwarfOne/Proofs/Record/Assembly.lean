/-
# `Proofs.Record.Assembly` — from the records read to the decoded section

`decode` surveys, reads, lays the attributes end to end and links.  Only the
reading can fail (the survey fails no other way), so a decoded section is
`assemble` of what was read: `decode_eq_ok_iff`.  Laying loses nothing, for
`contents` gives the records back with their attributes.
-/
import DwarfOne.Record.DebugInfo
import DwarfOne.Proofs.Record.Survey
import Mathlib.Data.List.Induction

namespace DwarfOne
namespace DebugInfo

/-! ## Laying attributes end to end -/

/-- The records of a list when `start` attributes come before them. -/
def layFrom (start : Nat) : List RawRecord → List Record
  | [] => []
  | r :: rs =>
      { offset := r.offset, length := r.length, tag := r.tag
        attributesStart := start, attributesStop := start + r.attributes.length } ::
        layFrom (start + r.attributes.length) rs

/-- The attributes of a list of records, end to end. -/
def arena (rs : List RawRecord) : List Attribute :=
  rs.flatMap RawRecord.attributes

/-- One round of `lay`. -/
def layStep (laid : Array Record × Array Attribute) (r : RawRecord) :
    Array Record × Array Attribute :=
  let start := laid.2.size
  let attributes := laid.2 ++ r.attributes.toArray
  (laid.1.push { offset := r.offset, length := r.length, tag := r.tag
                 attributesStart := start, attributesStop := attributes.size }, attributes)

theorem foldl_layStep : ∀ (rs : List RawRecord) (laid : Array Record × Array Attribute),
    rs.foldl layStep laid =
      (laid.1 ++ (layFrom laid.2.size rs).toArray, laid.2 ++ (arena rs).toArray)
  | [], laid => by simp [layFrom, arena]
  | r :: rs, laid => by
      rw [List.foldl_cons, foldl_layStep rs]
      simp [layStep, layFrom, arena]

theorem lay_eq (raw : List RawRecord) :
    lay raw = ((layFrom 0 raw).toArray, (arena raw).toArray) := by
  show raw.foldl layStep (#[], #[]) = _
  rw [foldl_layStep]
  simp

theorem length_layFrom : ∀ (start : Nat) (rs : List RawRecord),
    (layFrom start rs).length = rs.length
  | _, [] => rfl
  | start, r :: rs => by
      simp [layFrom, length_layFrom (start + r.attributes.length) rs]

/-- The `i`th record laid, and where its attributes start. -/
theorem getElem?_layFrom : ∀ (start : Nat) (rs : List RawRecord) (i : Nat),
    (layFrom start rs)[i]? = rs[i]?.map fun r =>
      { offset := r.offset, length := r.length, tag := r.tag
        attributesStart := start + (arena (rs.take i)).length
        attributesStop := start + (arena (rs.take i)).length + r.attributes.length }
  | _, [], _ => by simp [layFrom]
  | start, r :: rs, 0 => by simp [layFrom, arena]
  | start, r :: rs, i + 1 => by
      simp only [layFrom, List.getElem?_cons_succ, List.take_succ_cons]
      rw [getElem?_layFrom]
      simp [arena, Nat.add_assoc]

/-! ## The decoded section -/

/-- The section that the records of a list make up. -/
def assemble (order : ByteOrder) (raw : List RawRecord) (lineTables : List LineTable) :
    DebugInfo :=
  let records := (layFrom 0 raw).toArray
  let attributes := (arena raw).toArray
  let places := placesOf records
  let links := Links.ofOutlines (records.map (outline attributes)) (places[·]?)
  { order, records, attributes, places, links, lineTables }

/-- The tables of the line section, if there is one. -/
def lineTablesOf (order : ByteOrder) : Option (List UInt8) → Except DebugError (List LineTable)
  | some bytes => LineTable.decodeAll order bytes
  | none => .ok []

theorem decode_of_readAll {order : ByteOrder} {debug : List UInt8} {raw : List RawRecord}
    (h : RawRecord.readAll order debug = .ok raw) (line : Option (List UInt8)) :
    decode order debug line = assemble order raw <$> lineTablesOf order line := by
  have hsurvey := survey_eq_ok_iff.mpr ⟨raw, h, rfl⟩
  simp only [decode, hsurvey, h, lay_eq]
  cases line with
  | none => rfl
  | some bytes =>
      simp only [lineTablesOf]
      cases LineTable.decodeAll order bytes with
      | error e => rfl
      | ok tables => rfl

/-- Decoding succeeds exactly when the records and the line tables can be read. -/
theorem decode_eq_ok_iff {order : ByteOrder} {debug : List UInt8} {line : Option (List UInt8)}
    {d : DebugInfo} :
    decode order debug line = .ok d ↔ ∃ raw tables, RawRecord.readAll order debug = .ok raw ∧
      lineTablesOf order line = .ok tables ∧ d = assemble order raw tables := by
  constructor
  · intro hd
    cases hraw : RawRecord.readAll order debug with
    | error e =>
        simp only [decode, hraw] at hd
        cases hs : survey order debug with
        | error e => rw [hs] at hd; cases hd
        | ok ns => rw [hs] at hd; cases hd
    | ok raw =>
        rw [decode_of_readAll hraw] at hd
        cases htables : lineTablesOf order line with
        | error e => rw [htables] at hd; cases hd
        | ok tables =>
            rw [htables] at hd
            cases hd
            exact ⟨raw, tables, rfl, rfl, rfl⟩
  · rintro ⟨raw, tables, hraw, htables, rfl⟩
    rw [decode_of_readAll hraw, htables]
    rfl

/-! ## What is in it -/

/-- A record with its attributes, as they lie in the section. -/
def raw (d : DebugInfo) (i : Nat) : RawRecord :=
  { offset := (d.record i).offset, length := (d.record i).length
    tag := (d.record i).tag, attributes := d.attributesOf i }

/-- The records in order, each with its attributes. -/
def contents (d : DebugInfo) : List RawRecord :=
  (List.range d.records.size).map d.raw

theorem record_of_getElem? {d : DebugInfo} {i : Nat} {r : Record}
    (h : d.records[i]? = some r) : d.record i = r := by
  rw [record, Array.getD_eq_getD_getElem?, h, Option.getD_some]

section Assemble

variable {order : ByteOrder} {rs : List RawRecord} {tables : List LineTable}

@[simp] theorem size_records_assemble : (assemble order rs tables).records.size = rs.length := by
  show (layFrom 0 rs).toArray.size = _
  rw [List.size_toArray, length_layFrom]

theorem getElem?_records_assemble (i : Nat) :
    (assemble order rs tables).records[i]? = rs[i]?.map fun r =>
      { offset := r.offset, length := r.length, tag := r.tag
        attributesStart := (arena (rs.take i)).length
        attributesStop := (arena (rs.take i)).length + r.attributes.length } := by
  show (layFrom 0 rs).toArray[i]? = _
  rw [List.getElem?_toArray, getElem?_layFrom]
  simp

theorem arena_append (rs rs' : List RawRecord) : arena (rs ++ rs') = arena rs ++ arena rs' :=
  List.flatMap_append

theorem take_append_cons_drop {i : Nat} {r : RawRecord} (h : rs[i]? = some r) :
    rs = rs.take i ++ r :: rs.drop (i + 1) := by
  obtain ⟨hi, rfl⟩ := List.getElem?_eq_some_iff.mp h
  rw [← List.drop_eq_getElem_cons hi, List.take_append_drop]

/-- The attributes of the `i`th record are the next ones in the arena. -/
theorem extract_arena {i : Nat} {r : RawRecord} (h : rs[i]? = some r) :
    ((arena rs).toArray.extract (arena (rs.take i)).length
      ((arena (rs.take i)).length + r.attributes.length)).toList = r.attributes := by
  have harena : arena rs =
      arena (rs.take i) ++ (r.attributes ++ arena (rs.drop (i + 1))) := by
    have hrs := congrArg arena (take_append_cons_drop h)
    rwa [arena_append] at hrs
  simp only [Array.toList_extract, List.extract_eq_take_drop, Nat.add_sub_cancel_left]
  rw [harena, List.drop_left, List.take_left]

theorem raw_assemble {i : Nat} {r : RawRecord} (h : rs[i]? = some r) :
    (assemble order rs tables).raw i = r := by
  have hrecord := @getElem?_records_assemble order rs tables i
  rw [h, Option.map_some] at hrecord
  simp only [raw, attributesOf, record_of_getElem? hrecord]
  exact RawRecord.ext rfl rfl rfl (extract_arena h)

theorem contents_assemble : (assemble order rs tables).contents = rs := by
  refine List.ext_getElem? fun i => ?_
  simp only [contents, size_records_assemble, List.getElem?_map]
  cases hi : rs[i]? with
  | none =>
      rw [List.getElem?_eq_none (by simpa using List.getElem?_eq_none_iff.mp hi)]
      rfl
  | some r =>
      have hlt : i < rs.length := (List.getElem?_eq_some_iff.mp hi).1
      rw [List.getElem?_range hlt, Option.map_some, raw_assemble hi]

end Assemble

/-! ## Places by offset -/

theorem placesOf_toArray (l : List Record) :
    placesOf l.toArray = l.zipIdx.foldl (fun places x => places.insert x.1.offset x.2) ∅ := by
  rw [placesOf, ← Array.foldl_toList, Array.toList_zipIdx]

theorem getElem?_placesOf_append (l : List Record) (r : Record) (o : UInt32) :
    (placesOf (l ++ [r]).toArray)[o]? =
      if r.offset = o then some l.length else (placesOf l.toArray)[o]? := by
  rw [placesOf_toArray, placesOf_toArray, List.zipIdx_append, List.foldl_append]
  simp only [List.zipIdx_singleton, List.foldl_cons, List.foldl_nil, Nat.zero_add]
  rw [Std.TreeMap.getElem?_insert]
  simp only [Std.compare_eq_iff_eq]

/-- A lookup finds the last record with that offset. -/
theorem getElem?_placesOf_eq_some_iff {l : List Record} {o : UInt32} {i : Nat} :
    (placesOf l.toArray)[o]? = some i ↔
      (∃ r, l[i]? = some r ∧ r.offset = o) ∧
        ∀ j r, i < j → l[j]? = some r → r.offset ≠ o := by
  induction l using List.reverseRecOn with
  | nil => simp [placesOf_toArray]
  | append_singleton l r ih =>
      rw [getElem?_placesOf_append]
      split
      case isTrue h =>
          constructor
          · intro hi
            cases hi
            refine ⟨⟨r, by simp, h⟩, fun j r' hj hr' => ?_⟩
            rw [List.getElem?_eq_none (by simp; omega)] at hr'
            cases hr'
          · rintro ⟨⟨r', hr', -⟩, hlater⟩
            have hle : i < (l ++ [r]).length := (List.getElem?_eq_some_iff.mp hr').1
            rw [List.length_append, List.length_singleton] at hle
            by_cases hi : i < l.length
            · exact absurd h (hlater l.length r hi (by simp))
            · rw [show i = l.length by omega]
      case isFalse h =>
          rw [ih]
          constructor
          · rintro ⟨⟨r', hr', ho⟩, hlater⟩
            have hi : i < l.length := (List.getElem?_eq_some_iff.mp hr').1
            refine ⟨⟨r', by rwa [List.getElem?_append_left hi], ho⟩, fun j r'' hj hr'' => ?_⟩
            by_cases hjl : j < l.length
            · rw [List.getElem?_append_left hjl] at hr''
              exact hlater j r'' hj hr''
            · rw [List.getElem?_append_right (by omega)] at hr''
              cases List.mem_singleton.mp (List.mem_of_getElem? hr'')
              exact h
          · rintro ⟨⟨r', hr', ho⟩, hlater⟩
            by_cases hi : i < l.length
            · rw [List.getElem?_append_left hi] at hr'
              refine ⟨⟨r', hr', ho⟩, fun j r'' hj hr'' => hlater j r'' hj ?_⟩
              rwa [List.getElem?_append_left (List.getElem?_eq_some_iff.mp hr'').1]
            · rw [List.getElem?_append_right (by omega)] at hr'
              cases List.mem_singleton.mp (List.mem_of_getElem? hr')
              exact absurd ho h

end DebugInfo
end DwarfOne
