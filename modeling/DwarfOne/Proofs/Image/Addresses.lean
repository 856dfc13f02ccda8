/-
# `Proofs.Image.Addresses` — from an address to bytes of the file

A segment says where its bytes are in the file and where they are in memory, and the ends
of both stretches are computed in 32 bits.  A stretch of memory that wraps around contains
no address, and the bytes of a segment that is loaded have been looked at, so in a file
shorter than 2^32 bytes they do not wrap around either.  This is why `dataAt?` may subtract
an offset from the end of the segment's bytes, and why the bytes it asks for are there.
-/
import DwarfOne.Proofs.Image.Load

namespace DwarfOne

/-! ## Stretches -/

namespace Range

variable {r : Range} {place : UInt32}

theorem contains_iff : r.contains place = true ↔ r.start ≤ place ∧ place < r.stop := by
  rw [contains, Bool.and_eq_true, decide_eq_true_eq, decide_eq_true_eq]

theorem toNat_stop (h : r.start.toNat + r.size.toNat < 2 ^ 32) :
    r.stop.toNat = r.start.toNat + r.size.toNat := by
  rw [stop, UInt32.toNat_add, Nat.mod_eq_of_lt h]

/-- A stretch that wraps around ends before it starts, and so contains nothing. -/
theorem add_lt_of_contains (h : r.contains place = true) :
    r.start.toNat + r.size.toNat < 2 ^ 32 := by
  obtain ⟨hstart, hstop⟩ := contains_iff.mp h
  rw [UInt32.le_iff_toNat_le] at hstart
  rw [UInt32.lt_iff_toNat_lt, stop, UInt32.toNat_add] at hstop
  by_contra hwraps
  have hwidth := r.size.toNat_lt
  have hplace := place.toNat_lt
  omega

theorem bounds_of_contains (h : r.contains place = true) :
    r.start.toNat ≤ place.toNat ∧ place.toNat < r.start.toNat + r.size.toNat := by
  obtain ⟨hstart, hstop⟩ := contains_iff.mp h
  rw [UInt32.le_iff_toNat_le] at hstart
  rw [UInt32.lt_iff_toNat_lt, toNat_stop (add_lt_of_contains h)] at hstop
  exact ⟨hstart, hstop⟩

end Range

/-! ## Places in the file -/

namespace Segment

variable {s : Segment} {address offset : UInt32}

/-- How far an address is into the segment. -/
def depth (s : Segment) (address : UInt32) : Nat :=
  address.toNat - s.memory.start.toNat

/-- The segment's bytes in a file, from an address on. -/
def bytesFrom (s : Segment) (bytes : Array UInt8) (address : UInt32) : List UInt8 :=
  (bytes.extract (s.file.start.toNat + s.depth address)
    (s.file.start.toNat + s.file.size.toNat)).toList

theorem length_bytesFrom {bytes : Array UInt8}
    (hfits : s.file.start.toNat + s.file.size.toNat ≤ bytes.size) :
    (s.bytesFrom bytes address).length = s.file.size.toNat - s.depth address := by
  rw [bytesFrom, Array.length_toList, Array.size_extract]
  omega

theorem toNat_sub_start (h : s.memory.contains address = true) :
    (address - s.memory.start).toNat = s.depth address := by
  obtain ⟨hstart, -⟩ := Range.contains_iff.mp h
  rw [UInt32.toNat_sub_of_le _ _ hstart, depth]

theorem offset?_eq_some_iff (h : s.memory.contains address = true) :
    s.offset? address = some offset ↔
      s.depth address < s.file.size.toNat ∧
        offset = s.file.start + (address - s.memory.start) := by
  have hlt : address - s.memory.start < s.file.size ↔ s.depth address < s.file.size.toNat := by
    rw [UInt32.lt_iff_toNat_lt, toNat_sub_start h]
  rw [offset?]
  by_cases hdepth : s.depth address < s.file.size.toNat
  · rw [if_pos ⟨h, hlt.mpr hdepth⟩, Option.some.injEq]
    simp only [hdepth, true_and, eq_comm]
  · rw [if_neg fun hcond => hdepth (hlt.mp hcond.2)]
    simp only [hdepth, false_and, reduceCtorEq]

/-- Neither the offset nor the end of the bytes wraps around. -/
theorem toNat_offset (h : s.memory.contains address = true)
    (hfits : s.file.start.toNat + s.file.size.toNat < 2 ^ 32)
    (hoffset : s.offset? address = some offset) :
    offset.toNat = s.file.start.toNat + s.depth address ∧
      (s.file.stop - offset).toNat = s.file.size.toNat - s.depth address ∧
      offset < s.file.stop := by
  obtain ⟨hdepth, rfl⟩ := (offset?_eq_some_iff h).mp hoffset
  have hplace : (s.file.start + (address - s.memory.start)).toNat =
      s.file.start.toNat + s.depth address := by
    rw [UInt32.toNat_add, toNat_sub_start h]
    exact Nat.mod_eq_of_lt (by omega)
  have hstop := Range.toNat_stop hfits
  have hlt : s.file.start + (address - s.memory.start) < s.file.stop := by
    rw [UInt32.lt_iff_toNat_lt, hplace, hstop]
    omega
  refine ⟨hplace, ?_, hlt⟩
  rw [UInt32.toNat_sub_of_le _ _ (UInt32.le_of_lt hlt), hplace, hstop]
  omega

end Segment

namespace Image

variable {bytes : Array UInt8} {image : Image} {address : UInt32} {i : Nat} {s : Segment}

/-! ## The segment of an address -/

/-- The segment is the first in the table that is loaded at the address. -/
structure FirstAt (image : Image) (address : UInt32) (i : Nat) (s : Segment) : Prop where
  get : image.segments[i]? = some s
  load : s.type = .load
  contains : s.memory.contains address = true
  first : ∀ j < i, ∀ t, image.segments[j]? = some t → t.type = .load →
    t.memory.contains address = false

theorem loadSegmentIndex?_eq_some (h : image.FirstAt address i s) :
    image.loadSegmentIndex? address = some i := by
  obtain ⟨hi, hget⟩ := Array.getElem?_eq_some_iff.mp h.get
  rw [loadSegmentIndex?, Array.findIdx?_eq_some_iff_getElem]
  refine ⟨hi, ?_, fun j hj hfound => ?_⟩
  · rw [hget]
    exact decide_eq_true ⟨h.load, h.contains⟩
  · obtain ⟨hload, hcontains⟩ := of_decide_eq_true hfound
    have hnot := h.first j hj _ (Array.getElem?_eq_getElem (Nat.lt_trans hj hi)) hload
    rw [hcontains] at hnot
    cases hnot

theorem exists_firstAt (h : image.loadSegmentIndex? address = some i) :
    ∃ s, image.FirstAt address i s := by
  rw [loadSegmentIndex?, Array.findIdx?_eq_some_iff_getElem] at h
  obtain ⟨hi, hfound, hfirst⟩ := h
  obtain ⟨hload, hcontains⟩ := of_decide_eq_true hfound
  refine ⟨_, Array.getElem?_eq_getElem hi, hload, hcontains, fun j hj t ht htype => ?_⟩
  obtain ⟨hj', rfl⟩ := Array.getElem?_eq_some_iff.mp ht
  by_contra hcontains'
  rw [Bool.not_eq_false] at hcontains'
  exact hfirst j hj (decide_eq_true ⟨htype, hcontains'⟩)

theorem loadSegmentIndex?_eq_none_iff : image.loadSegmentIndex? address = none ↔
    ∀ s ∈ image.segments, s.type = .load → s.memory.contains address = false := by
  rw [loadSegmentIndex?, Array.findIdx?_eq_none_iff]
  constructor
  · intro h s hs htype
    by_contra hcontains
    rw [Bool.not_eq_false] at hcontains
    exact of_decide_eq_false (h s hs) ⟨htype, hcontains⟩
  · intro h s hs
    refine decide_eq_false fun ⟨htype, hcontains⟩ => ?_
    rw [h s hs htype] at hcontains
    cases hcontains

/-! ## The bytes at an address -/

theorem dataAt?_of_firstAt (h : image.FirstAt address i s) :
    image.dataAt? address = (s.offset? address).bind fun offset =>
      (slice image.bytes offset.toNat (s.file.stop - offset).toNat).toOption := by
  simp only [dataAt?, loadSegmentIndex?_eq_some h, Option.bind_eq_bind, Option.bind_some, h.get]

theorem dataAt?_of_loadSegmentIndex?_eq_none (h : image.loadSegmentIndex? address = none) :
    image.dataAt? address = none := by
  simp only [dataAt?, h, Option.bind_eq_bind, Option.bind_none]

/-- What is found at an address in a segment. -/
structure Mapped (image : Image) (address : UInt32) (s : Segment) : Prop where
  start_le : s.memory.start ≤ address
  depth_lt : s.depth address < s.memory.size.toNat
  /-- The offset is before the end of the bytes and can be subtracted from it, and what is
  between them is in the file. -/
  sliced : ∀ offset, s.offset? address = some offset → offset < s.file.stop ∧
    ∃ data, slice image.bytes offset.toNat (s.file.stop - offset).toNat = .ok data
  data : s.depth address < s.file.size.toNat →
    s.file.start.toNat + s.file.size.toNat ≤ image.bytes.size ∧
      s.bytesFrom image.bytes address ≠ [] ∧
      image.dataAt? address = some (s.bytesFrom image.bytes address)
  noData : s.file.size.toNat ≤ s.depth address → image.dataAt? address = none

theorem mapped_of_firstAt (h : image.FirstAt address i s)
    (hfits : s.file.start.toNat + s.file.size.toNat ≤ image.bytes.size)
    (hsize : image.bytes.size < 2 ^ 32) : image.Mapped address s := by
  obtain ⟨hstart, hstop⟩ := Range.bounds_of_contains h.contains
  have hshort : s.file.start.toNat + s.file.size.toNat < 2 ^ 32 := by omega
  have hslice : ∀ offset, s.offset? address = some offset →
      slice image.bytes offset.toNat (s.file.stop - offset).toNat =
        .ok (s.bytesFrom image.bytes address) := by
    intro offset hoffset
    obtain ⟨hdepth, -⟩ := (Segment.offset?_eq_some_iff h.contains).mp hoffset
    obtain ⟨hplace, hleft, -⟩ := Segment.toNat_offset h.contains hshort hoffset
    have hend : s.file.start.toNat + s.depth address + (s.file.size.toNat - s.depth address) =
        s.file.start.toNat + s.file.size.toNat := by omega
    rw [hplace, hleft, slice_eq_ok_iff, hend]
    exact ⟨hfits, rfl⟩
  constructor
  case start_le => exact UInt32.le_iff_toNat_le.mpr hstart
  case depth_lt =>
      rw [Segment.depth]
      omega
  case sliced =>
      intro offset hoffset
      obtain ⟨-, -, hbefore⟩ := Segment.toNat_offset h.contains hshort hoffset
      exact ⟨hbefore, _, hslice offset hoffset⟩
  case data =>
      intro hdepth
      have hoffset := (Segment.offset?_eq_some_iff h.contains).mpr ⟨hdepth, rfl⟩
      refine ⟨hfits, ?_, ?_⟩
      · rw [← List.length_pos_iff, Segment.length_bytesFrom hfits]
        omega
      · rw [dataAt?_of_firstAt h, hoffset, Option.bind_some, hslice _ hoffset]
        rfl
  case noData =>
      intro hdepth
      rw [dataAt?_of_firstAt h, Option.bind_eq_none_iff]
      intro offset hoffset
      have hless := ((Segment.offset?_eq_some_iff h.contains).mp hoffset).1
      omega

/-- The bytes of a segment that is loaded have been looked at. -/
theorem fits_of_load (h : load bytes = .ok image) (hs : s ∈ image.segments)
    (htype : s.type = .load) : s.file.start.toNat + s.file.size.toNat ≤ image.bytes.size := by
  obtain ⟨tables, hrenamed, rfl, -⟩ := exists_renamed_of_load h
  obtain ⟨i, hi⟩ := Array.mem_iff_getElem?.mp hs
  rw [hrenamed.bytes]
  exact (readSegment_eq_ok_iff.mp ((segments_of_load h).2 i s hi)).2 htype

theorem bytes_of_load (h : load bytes = .ok image) : image.bytes = bytes := by
  obtain ⟨tables, hrenamed, rfl, -⟩ := exists_renamed_of_load h
  exact hrenamed.bytes

theorem mapped_of_load (h : load bytes = .ok image) (hsize : bytes.size < 2 ^ 32)
    (hfirst : image.FirstAt address i s) : image.Mapped address s := by
  have hmem : s ∈ image.segments := Array.mem_iff_getElem?.mpr ⟨i, hfirst.get⟩
  rw [← bytes_of_load h] at hsize
  exact mapped_of_firstAt hfirst (fits_of_load h hmem hfirst.load) hsize

/-- Whatever is found at an address is in the file, in the segment of the address. -/
theorem exists_firstAt_of_dataAt? (h : load bytes = .ok image) (hsize : bytes.size < 2 ^ 32)
    {data : List UInt8} (hdata : image.dataAt? address = some data) :
    ∃ i s, image.FirstAt address i s ∧
      s.file.start.toNat + s.file.size.toNat ≤ bytes.size ∧ data = s.bytesFrom bytes address := by
  cases hindex : image.loadSegmentIndex? address with
  | none => cases (dataAt?_of_loadSegmentIndex?_eq_none hindex).symm.trans hdata
  | some i =>
      obtain ⟨s, hfirst⟩ := exists_firstAt hindex
      have hmapped := mapped_of_load h hsize hfirst
      rcases Nat.lt_or_ge (s.depth address) s.file.size.toNat with hdepth | hdepth
      · obtain ⟨hfits, -, hsome⟩ := hmapped.data hdepth
        cases hsome.symm.trans hdata
        rw [bytes_of_load h] at hfits ⊢
        exact ⟨i, s, hfirst, hfits, rfl⟩
      · cases (hmapped.noData hdepth).symm.trans hdata

/-- Where the addresses of an image lead. -/
structure AddressesMapped (image : Image) : Prop where
  /-- The first segment that is loaded at an address decides. -/
  found : ∀ address, ∀ s ∈ image.segments, s.type = .load → s.memory.contains address = true →
    ∃ i first, image.FirstAt address i first ∧ image.Mapped address first
  notFound : ∀ address,
    (∀ s ∈ image.segments, s.type = .load → s.memory.contains address = false) →
      image.dataAt? address = none

/-- In an image that loads, what is found at an address is right, and finding it cannot go
wrong. -/
theorem addressesMapped_of_load (h : load bytes = .ok image) (hsize : bytes.size < 2 ^ 32) :
    image.bytes = bytes ∧ AddressesMapped image := by
  refine ⟨bytes_of_load h, ?_, ?_⟩
  · intro address s hs htype hcontains
    cases hindex : image.loadSegmentIndex? address with
    | none =>
        have hnot := loadSegmentIndex?_eq_none_iff.mp hindex s hs htype
        rw [hcontains] at hnot
        cases hnot
    | some i =>
        obtain ⟨first, hfirst⟩ := exists_firstAt hindex
        exact ⟨i, first, hfirst, mapped_of_load h hsize hfirst⟩
  · intro address hnone
    exact dataAt?_of_loadSegmentIndex?_eq_none (loadSegmentIndex?_eq_none_iff.mpr hnone)

theorem addressesMapped_sampleFile : sampleFile.size < 2 ^ 32 ∧
    ∃ image, load sampleFile = .ok image ∧ image.bytes = sampleFile ∧ AddressesMapped image := by
  have hsize : sampleFile.size < 2 ^ 32 := by decide +kernel
  obtain ⟨image, h⟩ := exists_load_sampleFile
  exact ⟨hsize, image, h, addressesMapped_of_load h hsize⟩

-- the last two bytes of the segment in the file, and nothing where it is filled with zeros
example : (load sampleFile).toOption.map (fun image => [0x8002, 0x8006].map image.dataAt?) =
    some [some [0x00, 0x20], none] := by
  decide +kernel

end Image

end DwarfOne
