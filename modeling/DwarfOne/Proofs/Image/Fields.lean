/-
# `Proofs.Image.Fields` — the headers of an image, field by field

A header is read word after word from the part of the file where it stands.  What comes
of it is said here with the place of each field in the file: `headerAt`, `segmentAt` and
`sectionAt` do not read on from anywhere.
-/
import DwarfOne.Image.Basic
import DwarfOne.Proofs.Bytes.Format

namespace DwarfOne

namespace Image

/-- The number in so many bytes of the file. -/
def numberAt (order : ByteOrder) (bytes : Array UInt8) (offset width : Nat) : Nat :=
  order.value (bytes.extract offset (offset + width)).toList

def halfAt (order : ByteOrder) (bytes : Array UInt8) (offset : Nat) : UInt16 :=
  .ofNat (numberAt order bytes offset 2)

def wordAt (order : ByteOrder) (bytes : Array UInt8) (offset : Nat) : UInt32 :=
  .ofNat (numberAt order bytes offset 4)

/-- The header of the file. -/
def headerAt (order : ByteOrder) (bytes : Array UInt8) : Header where
  osabi := bytes.getD 7 0
  abiVersion := bytes.getD 8 0
  fileType := halfAt order bytes 16
  machine := halfAt order bytes 18
  version := wordAt order bytes 20
  entry := wordAt order bytes 24
  programHeaderOffset := wordAt order bytes 28
  sectionHeaderOffset := wordAt order bytes 32
  flags := wordAt order bytes 36
  headerSize := halfAt order bytes 40
  programHeaderSize := halfAt order bytes 42
  programHeaderCount := halfAt order bytes 44
  sectionHeaderSize := halfAt order bytes 46
  sectionHeaderCount := halfAt order bytes 48
  nameTableIndex := halfAt order bytes 50

/-- The segment whose header is at an offset. -/
def segmentAt (order : ByteOrder) (bytes : Array UInt8) (offset : Nat) : Segment where
  type := .ofValue (wordAt order bytes offset)
  file := ⟨wordAt order bytes (offset + 4), wordAt order bytes (offset + 16)⟩
  memory := ⟨wordAt order bytes (offset + 8), wordAt order bytes (offset + 20)⟩
  physical := wordAt order bytes (offset + 12)
  flags := ⟨wordAt order bytes (offset + 24)⟩
  align := wordAt order bytes (offset + 28)

/-- The section whose header is at an offset, under a name. -/
def sectionAt (order : ByteOrder) (bytes : Array UInt8) (offset : Nat) (name : String) :
    Section where
  name
  type := .ofValue (wordAt order bytes (offset + 4))
  flags := ⟨wordAt order bytes (offset + 8)⟩
  file := ⟨wordAt order bytes (offset + 16),
    if SectionType.ofValue (wordAt order bytes (offset + 4)) = .noBits then 0
    else wordAt order bytes (offset + 20)⟩
  memory := ⟨wordAt order bytes (offset + 12), wordAt order bytes (offset + 20)⟩
  link := wordAt order bytes (offset + 24)
  info := wordAt order bytes (offset + 28)
  align := wordAt order bytes (offset + 32)
  entrySize := wordAt order bytes (offset + 36)
  nameIndex := wordAt order bytes offset

end Image

/-- Where the header of a segment is. -/
def Header.segmentOffset (h : Header) (i : Nat) : Nat :=
  h.programHeaderOffset.toNat + i * h.programHeaderSize.toNat

/-- Where the header of a section is. -/
def Header.sectionOffset (h : Header) (i : Nat) : Nat :=
  h.sectionHeaderOffset.toNat + i * h.sectionHeaderSize.toNat

section Windows

variable {order : ByteOrder} {bytes : Array UInt8} {offset size : Nat} {c' : Cursor}

/-- Reading on leaves the rest of the window. -/
theorem Cursor.window_advance {n : Nat} (h : n ≤ size) :
    (window order bytes offset size).advance n = window order bytes (offset + n) (size - n) := by
  have hstop : offset + n + (size - n) = offset + size := by omega
  ext1
  · rfl
  · rfl
  · simp [window, hstop]
  · simp only [window, advance, hstop, Array.toList_extract, List.extract_eq_drop_take',
      List.drop_drop]

namespace Reader

theorem number_window_eq_ok_iff {width n : Nat} (h : width ≤ size) :
    number width (.window order bytes offset size) = .ok n c' ↔
      offset + width ≤ bytes.size ∧ n = Image.numberAt order bytes offset width ∧
        c' = .window order bytes (offset + width) (size - width) := by
  have htake : (Cursor.window order bytes offset size).unread.take width =
      (bytes.extract offset (offset + width)).toList := by
    have hend : min (offset + width) (offset + size) = offset + width := by omega
    simp only [Cursor.window, Array.toList_extract, List.take_drop, List.take_take,
      Nat.add_sub_cancel_left, hend]
  have hfits : (Cursor.window order bytes offset size).offset + width ≤
      (Cursor.window order bytes offset size).stop ↔ offset + width ≤ bytes.size := by
    simp only [Cursor.window]
    omega
  rw [number_eq, Cursor.window_advance h, htake]
  split
  case isTrue hwithin =>
      constructor
      · intro hok
        cases hok
        exact ⟨hfits.mp hwithin, rfl, rfl⟩
      · rintro ⟨-, rfl, rfl⟩
        rfl
  case isFalse hwithin =>
      constructor
      · intro hok
        cases hok
      · rintro ⟨hok, -, -⟩
        exact absurd (hfits.mpr hok) hwithin

/-- A field and what is read after it. -/
theorem number_bind_on_eq_ok_iff {α β : Type} {width : Nat} {f : Nat → β}
    {k : β → Reader OutOfBounds α} {a : α} (h : width ≤ size) :
    ((f <$> number width) >>= k).on (.window order bytes offset size) = .ok a ↔
      offset + width ≤ bytes.size ∧
        (k (f (Image.numberAt order bytes offset width))).on
          (.window order bytes (offset + width) (size - width)) = .ok a := by
  simp only [on_eq_ok_iff, bind_eq_ok_iff, map_eq_ok_iff, number_window_eq_ok_iff h]
  constructor
  · rintro ⟨c', _, _, ⟨_, ⟨hwithin, rfl, rfl⟩, rfl⟩, hk⟩
    exact ⟨hwithin, c', hk⟩
  · rintro ⟨hwithin, c', hk⟩
    exact ⟨c', _, _, ⟨_, ⟨hwithin, rfl, rfl⟩, rfl⟩, hk⟩

theorem half_bind_on_eq_ok_iff {α : Type} {k : UInt16 → Reader OutOfBounds α} {a : α}
    (h : 2 ≤ size) : (half >>= k).on (.window order bytes offset size) = .ok a ↔
      offset + 2 ≤ bytes.size ∧ (k (Image.halfAt order bytes offset)).on
        (.window order bytes (offset + 2) (size - 2)) = .ok a :=
  number_bind_on_eq_ok_iff h

theorem word_bind_on_eq_ok_iff {α : Type} {k : UInt32 → Reader OutOfBounds α} {a : α}
    (h : 4 ≤ size) : (word >>= k).on (.window order bytes offset size) = .ok a ↔
      offset + 4 ≤ bytes.size ∧ (k (Image.wordAt order bytes offset)).on
        (.window order bytes (offset + 4) (size - 4)) = .ok a :=
  number_bind_on_eq_ok_iff h

theorem pure_on_eq_ok_iff {α : Type} {a b : α} {c : Cursor} :
    (pure a : Reader OutOfBounds α).on c = .ok b ↔ b = a := by
  constructor
  · intro h
    cases h
    rfl
  · rintro rfl
    rfl

end Reader

namespace Image

theorem segment_read_eq_ok_iff {s : Segment} :
    Segment.read.on (.window order bytes offset Segment.headerSize) = .ok s ↔
      offset + Segment.headerSize ≤ bytes.size ∧ s = segmentAt order bytes offset := by
  simp (disch := decide) only [Segment.read, Segment.headerSize, Reader.word_bind_on_eq_ok_iff,
    Reader.pure_on_eq_ok_iff, Nat.add_assoc, Nat.reduceAdd]
  constructor
  · rintro ⟨-, -, -, -, -, -, -, hwithin, rfl⟩
    exact ⟨hwithin, rfl⟩
  · rintro ⟨hwithin, rfl⟩
    refine ⟨?_, ?_, ?_, ?_, ?_, ?_, ?_, hwithin, rfl⟩ <;> omega

theorem section_read_eq_ok_iff {s : Section} :
    Section.read.on (.window order bytes offset Section.headerSize) = .ok s ↔
      offset + Section.headerSize ≤ bytes.size ∧ s = sectionAt order bytes offset "" := by
  simp (disch := decide) only [Section.read, Section.headerSize, Reader.word_bind_on_eq_ok_iff,
    Reader.pure_on_eq_ok_iff, Nat.add_assoc, Nat.reduceAdd]
  constructor
  · rintro ⟨-, -, -, -, -, -, -, -, -, hwithin, rfl⟩
    exact ⟨hwithin, rfl⟩
  · rintro ⟨hwithin, rfl⟩
    refine ⟨?_, ?_, ?_, ?_, ?_, ?_, ?_, ?_, ?_, hwithin, rfl⟩ <;> omega

theorem header_ofBytes_eq_ok_iff {h : Header} :
    Header.ofBytes order bytes = .ok h ↔ headerSize ≤ bytes.size ∧ h = headerAt order bytes := by
  simp (disch := decide) only [Header.ofBytes, Header.read, headerSize,
    Reader.word_bind_on_eq_ok_iff, Reader.half_bind_on_eq_ok_iff, Reader.pure_on_eq_ok_iff,
    Nat.reduceAdd]
  constructor
  · rintro ⟨-, -, -, -, -, -, -, -, -, -, -, -, hwithin, rfl⟩
    exact ⟨hwithin, rfl⟩
  · rintro ⟨hwithin, rfl⟩
    refine ⟨?_, ?_, ?_, ?_, ?_, ?_, ?_, ?_, ?_, ?_, ?_, ?_, hwithin, rfl⟩ <;> omega

end Image

end Windows

end DwarfOne
