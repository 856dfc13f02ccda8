/-
# `Proofs.Record.Encoding` — records written and read back

A writer for sections, the other side of `decode`.  What it writes is given as
data that can be written: a value comes with the form its name gives and fits
it, a record without attributes is short or has the padding tag, a record with
attributes has some and another tag.

Each piece written lies in its bytes in the sense of `Proofs.Record.Layout`, so
the pieces tile the section and `decode_encodeAll` follows: the records come
back in order with their tags, lengths, names and values, each at the offset
where it was written.  Nothing there depends on the byte order.
-/
import DwarfOne.Proofs.Record.Assembly
import DwarfOne.Proofs.Text.Utf8

namespace DwarfOne

/-! ## Pieces written one after another -/

section Place

variable {α β : Type} (size : α → Nat) (place : Nat → α → β)

/-- What the pieces of a list become when written from an offset on. -/
def placeFrom : Nat → List α → List β
  | _, [] => []
  | offset, a :: as => place offset a :: placeFrom (offset + size a) as

variable {size place}

theorem tiles_placeFrom {F : Format β} {encode : α → List UInt8}
    (hsize : ∀ a, (encode a).length = size a)
    (hF : ∀ offset a, F offset (encode a) (place offset a)) :
    ∀ (offset : Nat) (as : List α),
      Tiles F offset (as.flatMap encode) (placeFrom size place offset as)
  | _, [] => .nil
  | offset, a :: as => by
      rw [List.flatMap_cons, placeFrom]
      refine .cons (hF offset a) ?_
      rw [hsize a]
      exact tiles_placeFrom hsize hF (offset + size a) as

theorem placeFrom_append : ∀ (as bs : List α) (offset : Nat),
    placeFrom size place offset (as ++ bs) =
      placeFrom size place offset as ++ placeFrom size place (offset + (as.map size).sum) bs
  | [], _, _ => rfl
  | a :: as, bs, offset => by
      rw [List.cons_append, placeFrom, placeFrom_append as bs, List.map_cons, List.sum_cons,
        ← Nat.add_assoc]
      rfl

theorem length_placeFrom : ∀ (as : List α) (offset : Nat),
    (placeFrom size place offset as).length = as.length
  | [], _ => rfl
  | a :: as, offset => by
      rw [placeFrom, List.length_cons, length_placeFrom as, List.length_cons]

theorem getElem?_placeFrom_append (as bs : List α) (offset : Nat) :
    (placeFrom size place offset (as ++ bs))[as.length]? =
      bs.head?.map (place (offset + (as.map size).sum)) := by
  rw [placeFrom_append, List.getElem?_append_right (Nat.le_of_eq (length_placeFrom as offset)),
    length_placeFrom, Nat.sub_self]
  cases bs with
  | nil => rfl
  | cons b bs => rfl

theorem length_flatMap_encode {encode : α → List UInt8} (hsize : ∀ a, (encode a).length = size a)
    (as : List α) : (as.flatMap encode).length = (as.map size).sum := by
  rw [List.length_flatMap]
  congr 1
  exact List.map_congr_left fun a _ => hsize a

end Place

/-! ## Values -/

namespace AttributeValue

/-- Whether a value can be written in a form. -/
def Fits : Form → AttributeValue → Prop
  | .addr, .address _ => True
  | .ref, .reference _ => True
  | .block2, .block bytes => bytes.length < 2 ^ 16
  | .block4, .block bytes => bytes.length < 2 ^ 32
  | .data2, .data2 _ => True
  | .data4, .data4 _ => True
  | .data8, .data8 _ => True
  | .string, .string text => '\x00' ∉ text.toList
  | _, _ => False

/-- How many bytes the length before a block takes. -/
def prefixSize : Form → Nat
  | .block4 => 4
  | _ => 2

/-- The bytes of a value in a form. -/
def encode (order : ByteOrder) (form : Form) : AttributeValue → List UInt8
  | .address value => order.bytes 4 value.toNat
  | .reference offset => order.bytes 4 offset.toNat
  | .block bytes => order.bytes (prefixSize form) bytes.length ++ bytes
  | .data2 value => order.bytes 2 value.toNat
  | .data4 value => order.bytes 4 value.toNat
  | .data8 value => order.bytes 8 value.toNat
  | .string text => Utf8.encode text ++ [0]

/-- How many bytes that is, in either order. -/
def size (form : Form) : AttributeValue → Nat
  | .address _ => 4
  | .reference _ => 4
  | .block bytes => prefixSize form + bytes.length
  | .data2 _ => 2
  | .data4 _ => 4
  | .data8 _ => 8
  | .string text => (Utf8.encode text).length + 1

variable {order : ByteOrder} {form : Form} {v : AttributeValue}

theorem length_encode : (v.encode order form).length = v.size form := by
  cases v <;> simp [encode, size]

theorem holdsNumber_bytes {α : Type} (width : Nat) {f : Nat → α} {n : Nat} {x : α}
    (hn : n < 256 ^ width) (hx : f n = x) (mk : α → AttributeValue) :
    HoldsNumber order width (fun n => mk (f n)) (order.bytes width n) (mk x) :=
  ⟨order.length_bytes width n, by rw [order.value_bytes hn, ← hx]⟩

theorem holdsBlock_bytes (width : Nat) {bytes : List UInt8} (h : bytes.length < 256 ^ width) :
    HoldsBlock order width (order.bytes width bytes.length ++ bytes) (.block bytes) :=
  ⟨_, bytes, rfl, order.length_bytes width _, order.value_bytes h, rfl⟩

/-- What is written in a form is held in it. -/
theorem holds_encode : ∀ {form : Form} {v : AttributeValue}, v.Fits form →
    Holds order form (v.encode order form) v
  | .addr, .address value, _ => holdsNumber_bytes 4 value.toNat_lt UInt32.ofNat_toNat .address
  | .ref, .reference offset, _ =>
      holdsNumber_bytes 4 offset.toNat_lt UInt32.ofNat_toNat .reference
  | .block2, .block _, h => holdsBlock_bytes 2 h
  | .block4, .block _, h => holdsBlock_bytes 4 h
  | .data2, .data2 value, _ => holdsNumber_bytes 2 value.toNat_lt UInt16.ofNat_toNat .data2
  | .data4, .data4 value, _ => holdsNumber_bytes 4 value.toNat_lt UInt32.ofNat_toNat .data4
  | .data8, .data8 value, _ => holdsNumber_bytes 8 value.toNat_lt UInt64.ofNat_toNat .data8
  | .string, .string text, h =>
      ⟨Utf8.encode text, rfl, Utf8.zero_notMem_encode h, by rw [Utf8.text_encode]⟩

end AttributeValue

/-! ## Attributes -/

/-- An attribute that can be written. -/
structure NamedValue where
  rawName : UInt16
  form : Form
  value : AttributeValue
  form_eq : Form.ofName? rawName = some form
  fits : value.Fits form

namespace NamedValue

/-- The name of a record. -/
def name (text : String) (htext : '\x00' ∉ text.toList) : NamedValue where
  rawName := 0x38
  form := .string
  value := .string text
  form_eq := rfl
  fits := htext

def encode (order : ByteOrder) (a : NamedValue) : List UInt8 :=
  order.bytes 2 a.rawName.toNat ++ a.value.encode order a.form

def size (a : NamedValue) : Nat :=
  2 + a.value.size a.form

/-- The attribute as it lies at an offset. -/
def place (offset : Nat) (a : NamedValue) : Attribute :=
  { offset := UInt32.ofNat offset, rawName := a.rawName, value := a.value }

/-- How many bytes the attributes of a list take. -/
def sizeAll (as : List NamedValue) : Nat :=
  (as.map size).sum

variable {order : ByteOrder}

theorem length_encode (a : NamedValue) : (a.encode order).length = a.size := by
  rw [encode, List.length_append, order.length_bytes, AttributeValue.length_encode, size]

theorem spans_encode (offset : Nat) (a : NamedValue) :
    Attribute.Spans order offset (a.encode order) (a.place offset) := by
  refine ⟨_, _, a.form, rfl, order.length_bytes _ _, rfl, ?_, a.form_eq,
    AttributeValue.holds_encode a.fits⟩
  rw [order.value_bytes a.rawName.toNat_lt, UInt16.ofNat_toNat]
  rfl

theorem two_le_sizeAll {as : List NamedValue} (h : as ≠ []) : 2 ≤ sizeAll as := by
  cases as with
  | nil => exact absurd rfl h
  | cons a as =>
      rw [sizeAll, List.map_cons, List.sum_cons, size]
      omega

end NamedValue

/-! ## Records -/

namespace Draft

/-- The start of a record: its length and, if it is long enough, its tag. -/
def header (order : ByteOrder) (length : UInt32) (tag : UInt16) : List UInt8 :=
  order.bytes 4 length.toNat ++ if 6 ≤ length then order.bytes 2 tag.toNat else []

def headerSize (length : UInt32) : Nat :=
  if 6 ≤ length then 6 else 4

variable {order : ByteOrder} {length : UInt32} {tag : UInt16}

theorem four_le_headerSize : 4 ≤ headerSize length := by
  unfold headerSize
  split
  · decide
  · decide

theorem length_header : (header order length tag).length = headerSize length := by
  rw [header, headerSize, List.length_append]
  split
  · simp
  · simp

theorem lengthField_header_append (q : List UInt8) :
    Frame.lengthField order (header order length tag ++ q) = length := by
  have htake : (header order length tag ++ q).take 4 = order.bytes 4 length.toNat := by
    rw [header, List.append_assoc, List.take_left' (order.length_bytes _ _)]
  rw [Frame.lengthField, htake, order.value_bytes length.toNat_lt, UInt32.ofNat_toNat]

theorem tagField_header_append (h : length < 6 → tag = 0) (q : List UInt8) :
    Frame.tagField order (header order length tag ++ q) = tag := by
  rw [Frame.tagField, lengthField_header_append]
  split
  case isTrue hsix =>
      rw [header, if_pos hsix, List.append_assoc, List.drop_left' (order.length_bytes _ _),
        List.take_left' (order.length_bytes _ _),
        order.value_bytes tag.toNat_lt, UInt16.ofNat_toNat]
  case isFalse hsix => exact (h (UInt32.not_le.mp hsix)).symm

end Draft

/-- A record without attributes: a null record, shorter than eight bytes, or
one with the padding tag.  The bytes after its header mean nothing. -/
structure Draft.Bare where
  length : UInt32
  tag : UInt16
  fill : List UInt8
  null_or_padding : length < 8 ∨ tag = 0
  tag_eq : length < 6 → tag = 0
  length_fill : fill.length = length.toNat - Draft.headerSize length

/-- A record with attributes. -/
structure Draft.Full where
  tag : UInt16
  attributes : List NamedValue
  tag_ne : tag ≠ 0
  attributes_ne : attributes ≠ []
  size_lt : 6 + NamedValue.sizeAll attributes < 2 ^ 32

/-- A record that can be written. -/
inductive Draft
  | bare (b : Draft.Bare)
  | full (f : Draft.Full)

namespace Draft

/-- The length a record with attributes declares. -/
def Full.length (f : Full) : UInt32 :=
  UInt32.ofNat (6 + NamedValue.sizeAll f.attributes)

def encode (order : ByteOrder) : Draft → List UInt8
  | bare b => header order b.length b.tag ++ b.fill
  | full f => header order f.length f.tag ++ f.attributes.flatMap (NamedValue.encode order)

def size : Draft → Nat
  | bare b => max b.length.toNat 4
  | full f => 6 + NamedValue.sizeAll f.attributes

/-- The record as it lies at an offset. -/
def place (offset : Nat) : Draft → RawRecord
  | bare b =>
      { offset := UInt32.ofNat offset, length := b.length, tag := Tag.ofValue b.tag
        attributes := [] }
  | full f =>
      { offset := UInt32.ofNat offset, length := f.length, tag := Tag.ofValue f.tag
        attributes := placeFrom NamedValue.size NamedValue.place (offset + 6) f.attributes }

/-- A section of records one after another. -/
def encodeAll (order : ByteOrder) (drafts : List Draft) : List UInt8 :=
  drafts.flatMap (encode order)

/-- The records as they lie in it. -/
def placeAll (drafts : List Draft) : List RawRecord :=
  placeFrom size place 0 drafts

theorem Full.toNat_length (f : Full) :
    f.length.toNat = 6 + NamedValue.sizeAll f.attributes :=
  UInt32.toNat_ofNat_of_lt' f.size_lt

theorem Full.eight_le_length (f : Full) : 8 ≤ f.length := by
  have hsize := NamedValue.two_le_sizeAll f.attributes_ne
  rw [UInt32.le_iff_toNat_le, f.toNat_length]
  show 8 ≤ _
  omega

theorem Full.headerSize_length (f : Full) : headerSize f.length = 6 :=
  if_pos (UInt32.le_trans (by decide) f.eight_le_length)

variable {order : ByteOrder}

theorem length_encode (e : Draft) : (e.encode order).length = e.size := by
  cases e with
  | bare b =>
      rw [encode, List.length_append, length_header, b.length_fill, size, headerSize]
      split
      case isTrue h =>
          have hsix : 6 ≤ b.length.toNat := UInt32.le_iff_toNat_le.mp h
          omega
      case isFalse h => omega
  | full f =>
      rw [encode, List.length_append, length_header, f.headerSize_length,
        length_flatMap_encode NamedValue.length_encode, size, NamedValue.sizeAll]

theorem Bare.spans_encode (offset : Nat) (b : Bare) :
    RawRecord.Spans order offset ((bare b).encode order) ((bare b).place offset) := by
  refine ⟨rfl, (lengthField_header_append _).symm, length_encode (bare b), ?_, ?_⟩
  · rw [encode, tagField_header_append b.tag_eq]
    rfl
  · rw [if_neg]
    · rfl
    · rintro ⟨height, htag⟩
      cases b.null_or_padding with
      | inl hshort => exact UInt32.not_le.mpr hshort height
      | inr hpadding => exact htag (Tag.ofValue_eq_padding_iff.mpr hpadding)

theorem Full.spans_encode (offset : Nat) (f : Full) :
    RawRecord.Spans order offset ((full f).encode order) ((full f).place offset) := by
  have hsize : (full f).size = max f.length.toNat 4 := by
    rw [size, f.toNat_length]
    omega
  have hlong : ¬ f.length < 6 :=
    UInt32.not_lt.mpr (UInt32.le_trans (by decide) f.eight_le_length)
  refine ⟨rfl, (lengthField_header_append _).symm, ?_, ?_, ?_⟩
  · rw [length_encode, hsize]
    rfl
  · rw [encode, tagField_header_append fun h => absurd h hlong]
    rfl
  · rw [if_pos ⟨f.eight_le_length, fun h => f.tag_ne (Tag.ofValue_eq_padding_iff.mp h)⟩, encode,
      List.drop_left' (length_header.trans f.headerSize_length)]
    exact tiles_placeFrom NamedValue.length_encode NamedValue.spans_encode (offset + 6) _

/-- A record lies in the bytes it is written to. -/
theorem spans_encode (offset : Nat) (e : Draft) :
    RawRecord.Spans order offset (e.encode order) (e.place offset) := by
  cases e with
  | bare b => exact b.spans_encode offset
  | full f => exact f.spans_encode offset

theorem tiles_placeAll (order : ByteOrder) (drafts : List Draft) :
    Tiles (RawRecord.Spans order) 0 (encodeAll order drafts) (placeAll drafts) :=
  tiles_placeFrom length_encode spans_encode 0 drafts

/-- A section written is read back. -/
theorem readAll_encodeAll (order : ByteOrder) (drafts : List Draft) :
    RawRecord.readAll order (encodeAll order drafts) = .ok (placeAll drafts) :=
  RawRecord.readAll_eq_ok_iff.mpr
    ⟨_, [], (List.append_nil _).symm, by decide, tiles_placeAll order drafts⟩

end Draft

namespace DebugInfo

/-- Records written in either order are decoded into the same records, in their
order and at the offsets where they were written. -/
theorem decode_encodeAll (drafts : List Draft) {order : ByteOrder} {line : Option (List UInt8)}
    {tables : List LineTable} (hline : lineTablesOf order line = .ok tables) :
    ∃ d, decode order (Draft.encodeAll order drafts) line = .ok d ∧
      d.contents = Draft.placeAll drafts ∧
      ∀ order' line' d', decode order' (Draft.encodeAll order' drafts) line' = .ok d' →
        d'.records = d.records ∧ d'.attributes = d.attributes := by
  refine ⟨assemble order (Draft.placeAll drafts) tables,
    decode_eq_ok_iff.mpr ⟨_, tables, Draft.readAll_encodeAll order drafts, hline, rfl⟩,
    contents_assemble, ?_⟩
  intro order' line' d' hd'
  obtain ⟨raw, tables', hraw, -, rfl⟩ := decode_eq_ok_iff.mp hd'
  rw [Draft.readAll_encodeAll] at hraw
  cases hraw
  exact ⟨rfl, rfl⟩

/-- A null record, one with the padding tag and one with two attributes. -/
def sampleDrafts : List Draft :=
  [.bare { length := 5, tag := 0, fill := [7], null_or_padding := by decide
           tag_eq := by decide, length_fill := by decide },
   .bare { length := 9, tag := 0, fill := [1, 2, 3], null_or_padding := by decide
           tag_eq := by decide, length_fill := by decide },
   .full { tag := 7
           attributes :=
             [.name "v" (by decide),
              { rawName := 0x23, form := .block2, value := .block [3, 0], form_eq := rfl
                fits := (by decide : [3, 0].length < 2 ^ 16) }]
           tag_ne := by decide, attributes_ne := by decide, size_lt := by decide }]

theorem decode_sampleDrafts : lineTablesOf .little none = .ok [] ∧
    ∃ d, decode .little (Draft.encodeAll .little sampleDrafts) none = .ok d ∧
      d.contents = Draft.placeAll sampleDrafts ∧
      ∀ order' line' d', decode order' (Draft.encodeAll order' sampleDrafts) line' = .ok d' →
        d'.records = d.records ∧ d'.attributes = d.attributes :=
  ⟨rfl, decode_encodeAll sampleDrafts rfl⟩

end DebugInfo

end DwarfOne
