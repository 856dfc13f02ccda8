/-
# `Proofs.Record.Framing` — records tile the section, attributes tile records

What a decoded section says of the bytes it was decoded from.  The records
follow one another without a gap from the start of the section up to fewer than
four bytes before its end.  A record that has attributes is its header and they,
again without a gap; no attribute reaches into the next record.  And the offsets
recorded are the places where things really start, so that a lookup by offset
finds the record there and nothing else.

Offsets are kept in 32 bits.  All of this is about sections whose offsets fit.
-/
import DwarfOne.Proofs.Record.Assembly

namespace DwarfOne

/-- Where a record stops. -/
def Record.stop (r : Record) : Nat :=
  r.offset.toNat + max r.length.toNat 4

/-- An attribute lies in the bytes `p` and its offset says where. -/
def Attribute.Located (order : ByteOrder) : Format Attribute := fun offset p a =>
  a.offset.toNat = offset ∧ Attribute.Spans order offset p a

namespace DebugInfo

/-- Where the last record stops. -/
def stop (d : DebugInfo) : Nat :=
  (d.records.back?.map Record.stop).getD 0

/-- Where the last record's attributes stop in the arena. -/
def attributesStop (d : DebugInfo) : Nat :=
  (d.records.back?.map Record.attributesStop).getD 0

/-- The section `d` is cut out of the bytes exactly. -/
structure Framed (order : ByteOrder) (bytes : List UInt8) (d : DebugInfo) : Prop where
  /-- The first record starts at zero, with the first attribute. -/
  first : ∀ r : Record, d.records[0]? = some r → r.offset = 0 ∧ r.attributesStart = 0
  /-- The next record starts where the one before stops, and so do its
  attributes. -/
  next : ∀ (i : Nat) (r s : Record), d.records[i]? = some r → d.records[i + 1]? = some s →
    s.offset.toNat = r.stop ∧ s.attributesStart = r.attributesStop
  /-- Fewer than four bytes are left over. -/
  rest : d.stop ≤ bytes.length ∧ bytes.length < d.stop + 4
  /-- No attribute is left over. -/
  arena : (∀ r ∈ d.records, r.attributesStart ≤ r.attributesStop) ∧
    d.attributesStop = d.attributes.size
  /-- Length and tag are what stands at the record's offset. -/
  header : ∀ (i : Nat) (r : Record), d.records[i]? = some r →
    r.length = Frame.lengthField order (bytes.drop r.offset.toNat) ∧
      r.tag = Tag.ofValue (Frame.tagField order (bytes.drop r.offset.toNat))
  /-- Attributes tile what follows the header, up to the record's length. -/
  full : ∀ (i : Nat) (r : Record), d.records[i]? = some r → 8 ≤ r.length → r.tag ≠ .padding →
    Tiles (Attribute.Located order) (r.offset.toNat + 6)
      (bytes.extract (r.offset.toNat + 6) (r.offset.toNat + r.length.toNat)) (d.attributesOf i)
  /-- Short records and padding have none. -/
  bare : ∀ (i : Nat) (r : Record), d.records[i]? = some r →
    r.length < 8 ∨ r.tag = .padding → d.attributesOf i = []
  /-- A lookup finds the record that starts there. -/
  find : ∀ (o : UInt32) (i : Nat), d.find? o = some i ↔ ∃ r, d.records[i]? = some r ∧ r.offset = o

section Assemble

variable {order : ByteOrder} {rs : List RawRecord} {tables : List LineTable}

/-- A record of the assembled section is one of the list, laid. -/
theorem getElem?_records_eq_some_iff {i : Nat} {x : Record} :
    (assemble order rs tables).records[i]? = some x ↔ ∃ r, rs[i]? = some r ∧
      x = { offset := r.offset, length := r.length, tag := r.tag
            attributesStart := (arena (rs.take i)).length
            attributesStop := (arena (rs.take i)).length + r.attributes.length } := by
  rw [getElem?_records_assemble, Option.map_eq_some_iff]
  constructor
  · rintro ⟨r, hr, rfl⟩
    exact ⟨r, hr, rfl⟩
  · rintro ⟨r, hr, rfl⟩
    exact ⟨r, hr, rfl⟩

theorem attributesOf_assemble {i : Nat} {r : RawRecord} (h : rs[i]? = some r) :
    (assemble order rs tables).attributesOf i = r.attributes :=
  congrArg RawRecord.attributes (raw_assemble h)

variable {p : List UInt8} (ht : Tiles (RawRecord.Spans order) 0 p rs) (hp : p.length < 2 ^ 32)
include ht hp

/-- A record of the tiling with the bytes before it, its own and those after
it; its offset counts the bytes before. -/
theorem exists_spans {i : Nat} {r : RawRecord} (hr : rs[i]? = some r) :
    ∃ q s t, p = q ++ (s ++ t) ∧ Tiles (RawRecord.Spans order) 0 q (rs.take i) ∧
      r.offset.toNat = q.length ∧ RawRecord.Spans order q.length s r ∧
      Tiles (RawRecord.Spans order) (q.length + s.length) t (rs.drop (i + 1)) := by
  obtain ⟨q, s, t, rfl, hq, hs, ht'⟩ := ht.of_getElem? hr
  simp only [List.length_append] at hp
  simp only [Nat.zero_add] at hs ht'
  refine ⟨q, s, t, rfl, hq, ?_, hs, ht'⟩
  rw [hs.offset_eq, UInt32.toNat_ofNat_of_lt' (by show q.length < 2 ^ 32; omega)]

theorem offset_first {r : RawRecord} (hr : rs[0]? = some r) : r.offset = 0 := by
  obtain ⟨q, s, t, -, hq, -, hs, -⟩ := exists_spans ht hp hr
  rw [hs.offset_eq, hq.eq_nil]
  rfl

theorem offset_next {i : Nat} {r r' : RawRecord} (hr : rs[i]? = some r)
    (hr' : rs[i + 1]? = some r') :
    r'.offset.toNat = r.offset.toNat + max r.length.toNat 4 := by
  obtain ⟨q, s, t, rfl, -, hoff, hs, ht'⟩ := exists_spans ht hp hr
  have hhead : (rs.drop (i + 1))[0]? = some r' := by rw [List.getElem?_drop]; exact hr'
  obtain ⟨q', s', t', rfl, hq', hs', -⟩ := ht'.of_getElem? hhead
  simp only [List.length_append] at hp
  rw [hs'.offset_eq, hq'.eq_nil, hoff, ← hs.size_eq, List.length_nil, Nat.add_zero]
  exact UInt32.toNat_ofNat_of_lt' (by show _ < 2 ^ 32; omega)

/-- The last record stops where the tiling does. -/
theorem stop_assemble : (assemble order rs tables).stop = p.length := by
  rw [stop, Array.back?_eq_getElem?, size_records_assemble, getElem?_records_assemble]
  cases hr : rs[rs.length - 1]? with
  | none =>
      have hnil : rs = [] := by
        have := List.getElem?_eq_none_iff.mp hr
        exact List.length_eq_zero_iff.mp (by omega)
      rw [hnil] at ht
      rw [ht.eq_nil]
      rfl
  | some r =>
      obtain ⟨q, s, t, rfl, -, hoff, hs, ht'⟩ := exists_spans ht hp hr
      have hlt := (List.getElem?_eq_some_iff.mp hr).1
      rw [List.drop_eq_nil_of_le (by omega)] at ht'
      show r.offset.toNat + max r.length.toNat 4 = _
      rw [hoff, ← hs.size_eq, ht'.eq_nil, List.append_nil, List.length_append]

/-- Attributes tile what their record leaves after its header. -/
theorem tiles_attributes {i : Nat} {r : RawRecord} {t : List UInt8} (hr : rs[i]? = some r)
    (hlength : 8 ≤ r.length) (htag : r.tag ≠ .padding) :
    Tiles (Attribute.Located order) (r.offset.toNat + 6)
      ((p ++ t).extract (r.offset.toNat + 6) (r.offset.toNat + r.length.toNat)) r.attributes := by
  obtain ⟨q, s, u, rfl, -, hoff, hs, -⟩ := exists_spans ht hp hr
  simp only [List.length_append] at hp
  have height : 8 ≤ r.length.toNat := UInt32.le_iff_toNat_le.mp hlength
  have hsize : s.length = r.length.toNat := by
    rw [hs.size_eq]
    exact Nat.max_eq_left (by omega)
  have hbytes : ((q ++ (s ++ u)) ++ t).extract (r.offset.toNat + 6)
      (r.offset.toNat + r.length.toNat) = s.drop 6 := by
    rw [List.extract_eq_take_drop, hoff, ← hsize, List.append_assoc, ← List.drop_drop,
      List.drop_left, List.append_assoc, List.drop_append_of_le_length (by omega),
      List.take_append_of_le_length (by rw [List.length_drop]; omega)]
    exact List.take_of_length_le (by rw [List.length_drop]; omega)
  have htiles := hs.attributes
  rw [if_pos ⟨hlength, htag⟩] at htiles
  rw [hbytes, hoff]
  refine htiles.imp fun o v a _ ho ha => ⟨?_, ha⟩
  obtain ⟨n, w, form, rfl, hn, hao, -⟩ := ha
  rw [List.length_drop, List.length_append] at ho
  rw [hao]
  exact UInt32.toNat_ofNat_of_lt' (by show _ < 2 ^ 32; omega)

theorem attributes_eq_nil {i : Nat} {r : RawRecord} (hr : rs[i]? = some r)
    (hbare : r.length < 8 ∨ r.tag = .padding) : r.attributes = [] := by
  obtain ⟨q, s, t, -, -, -, hs, -⟩ := exists_spans ht hp hr
  have hattributes := hs.attributes
  rwa [if_neg ?_] at hattributes
  rintro ⟨hlength, htag⟩
  rcases hbare with h | h
  · exact absurd (UInt32.lt_of_lt_of_le h hlength) (UInt32.lt_irrefl _)
  · exact htag h

/-- Length and tag stand at the record's offset. -/
theorem header_eq {i : Nat} {r : RawRecord} {t : List UInt8} (hr : rs[i]? = some r) :
    r.length = Frame.lengthField order ((p ++ t).drop r.offset.toNat) ∧
      r.tag = Tag.ofValue (Frame.tagField order ((p ++ t).drop r.offset.toNat)) := by
  obtain ⟨q, s, u, rfl, -, hoff, hs, -⟩ := exists_spans ht hp hr
  have hsize : Frame.sizeField order s = s.length := by
    rw [Frame.sizeField, ← hs.length_eq]
    exact hs.size_eq.symm
  have hfour : 4 ≤ s.length := hsize ▸ Frame.four_le_sizeField order s
  rw [hoff, List.append_assoc, List.drop_left, List.append_assoc,
    Frame.lengthField_append hfour, Frame.tagField_append (Nat.le_of_eq hsize)]
  exact ⟨hs.length_eq, hs.tag_eq⟩

/-- Later records have greater offsets. -/
theorem offset_lt_offset {i j : Nat} {r r' : RawRecord} (hr : rs[i]? = some r)
    (hr' : rs[j]? = some r') (hij : i < j) : r.offset.toNat < r'.offset.toNat := by
  obtain ⟨q, s, t, rfl, hq, hoff', -, -⟩ := exists_spans ht hp hr'
  have hr'' : (rs.take j)[i]? = some r := by rwa [List.getElem?_take_of_lt hij]
  simp only [List.length_append] at hp
  obtain ⟨q', s', t', rfl, -, hoff, hs, -⟩ := exists_spans hq (by omega) hr''
  have hpos : 0 < s'.length := List.length_pos_iff.mpr hs.ne_nil
  rw [hoff, hoff']
  simp only [List.length_append]
  omega

theorem find?_assemble_eq_some_iff {o : UInt32} {i : Nat} :
    (assemble order rs tables).find? o = some i ↔ ∃ r, rs[i]? = some r ∧ r.offset = o := by
  show (placesOf (layFrom 0 rs).toArray)[o]? = some i ↔ _
  rw [getElem?_placesOf_eq_some_iff]
  simp only [getElem?_layFrom, Option.map_eq_some_iff]
  constructor
  · rintro ⟨⟨_, ⟨r, hr, rfl⟩, ho⟩, -⟩
    exact ⟨r, hr, ho⟩
  · rintro ⟨r, hr, rfl⟩
    refine ⟨⟨_, ⟨r, hr, rfl⟩, rfl⟩, ?_⟩
    rintro j _ hij ⟨r', hr', rfl⟩ heq
    have hlt := offset_lt_offset ht hp hr hr' hij
    have hsame : r'.offset = r.offset := heq
    rw [hsame] at hlt
    exact absurd hlt (Nat.lt_irrefl _)

/-- Every record is found by its own offset. -/
theorem find?_offset_assemble {i : Nat} (hi : i < (assemble order rs tables).records.size) :
    (assemble order rs tables).find? ((assemble order rs tables).record i).offset = some i := by
  have hrecord : (assemble order rs tables).records[i]? = some _ := Array.getElem?_eq_getElem hi
  obtain ⟨r, hr, hx⟩ := getElem?_records_eq_some_iff.mp hrecord
  rw [record_of_getElem? hrecord, hx, find?_assemble_eq_some_iff ht hp]
  exact ⟨r, hr, rfl⟩

end Assemble

/-- The records of the arena end where it does. -/
theorem attributesStop_assemble {order : ByteOrder} {rs : List RawRecord}
    {tables : List LineTable} :
    (assemble order rs tables).attributesStop = (assemble order rs tables).attributes.size := by
  rw [attributesStop, Array.back?_eq_getElem?, size_records_assemble, getElem?_records_assemble]
  show _ = (arena rs).toArray.size
  rw [List.size_toArray]
  cases hr : rs[rs.length - 1]? with
  | none =>
      have hnil : rs = [] := by
        have := List.getElem?_eq_none_iff.mp hr
        exact List.length_eq_zero_iff.mp (by omega)
      rw [hnil]
      rfl
  | some r =>
      have hlt := (List.getElem?_eq_some_iff.mp hr).1
      have harena := congrArg arena (take_append_cons_drop hr)
      rw [arena_append, List.drop_eq_nil_of_le (by omega)] at harena
      rw [harena]
      simp [arena]

/-- A section that decodes is cut exactly. -/
theorem framed_of_decode {order : ByteOrder} {bytes : List UInt8} {line : Option (List UInt8)}
    {d : DebugInfo} (hbytes : bytes.length < 2 ^ 32) (h : decode order bytes line = .ok d) :
    d.Framed order bytes := by
  obtain ⟨rs, tables, hrs, -, rfl⟩ := decode_eq_ok_iff.mp h
  obtain ⟨p, t, rfl, hrest, ht⟩ := RawRecord.readAll_eq_ok_iff.mp hrs
  have hp : p.length < 2 ^ 32 := by
    rw [List.length_append] at hbytes
    omega
  exact {
    first := by
      intro x hx
      obtain ⟨r, hr, rfl⟩ := getElem?_records_eq_some_iff.mp hx
      exact ⟨offset_first ht hp hr, rfl⟩
    next := by
      intro i x y hx hy
      obtain ⟨r, hr, rfl⟩ := getElem?_records_eq_some_iff.mp hx
      obtain ⟨r', hr', rfl⟩ := getElem?_records_eq_some_iff.mp hy
      refine ⟨offset_next ht hp hr hr', ?_⟩
      rw [List.take_add_one, hr, arena_append, List.length_append]
      simp [arena]
    rest := by
      rw [stop_assemble ht hp, List.length_append]
      omega
    arena := by
      refine ⟨fun x hx => ?_, attributesStop_assemble⟩
      obtain ⟨i, hi⟩ := Array.mem_iff_getElem?.mp hx
      obtain ⟨r, -, rfl⟩ := getElem?_records_eq_some_iff.mp hi
      exact Nat.le_add_right _ _
    header := by
      intro i x hx
      obtain ⟨r, hr, rfl⟩ := getElem?_records_eq_some_iff.mp hx
      exact header_eq ht hp hr
    full := by
      intro i x hx hlength htag
      obtain ⟨r, hr, rfl⟩ := getElem?_records_eq_some_iff.mp hx
      rw [attributesOf_assemble hr]
      exact tiles_attributes ht hp hr hlength htag
    bare := by
      intro i x hx hbare
      obtain ⟨r, hr, rfl⟩ := getElem?_records_eq_some_iff.mp hx
      rw [attributesOf_assemble hr]
      exact attributes_eq_nil ht hp hr hbare
    find := by
      intro o i
      rw [find?_assemble_eq_some_iff ht hp]
      constructor
      · rintro ⟨r, hr, rfl⟩
        exact ⟨_, getElem?_records_eq_some_iff.mpr ⟨r, hr, rfl⟩, rfl⟩
      · rintro ⟨x, hx, rfl⟩
        obtain ⟨r, hr, rfl⟩ := getElem?_records_eq_some_iff.mp hx
        exact ⟨r, hr, rfl⟩ }

/-- A null record, a record with two attributes, and two bytes left over. -/
def sampleSection : List UInt8 :=
  [0, 0, 0, 2, 0, 0, 0, 14, 0, 7, 0, 0x38, 0x76, 0, 0, 0x55, 0, 7, 0, 1]

theorem framed_sampleSection :
    ∃ d, decode .big sampleSection none = .ok d ∧ d.Framed .big sampleSection := by
  obtain ⟨d, hd⟩ : ∃ d, decode .big sampleSection none = .ok d := ⟨_, rfl⟩
  exact ⟨d, hd, framed_of_decode (by decide) hd⟩

end DebugInfo
end DwarfOne
