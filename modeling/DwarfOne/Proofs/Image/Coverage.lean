/-
# `Proofs.Image.Coverage` — what is in the file is found

A stretch of memory starts somewhere and has a size, and `Range.Covers` counts its places in
natural numbers.  `Range.contains` compares with an end that is computed in 32 bits.  The two
agree on every stretch that ends below the top of memory.  One that ends exactly there has the
end zero: it covers places and contains none, and so the bytes of a segment that is loaded
there are not found.

`Proofs.Image.Addresses` says that whatever is found is right.  The other way round, every
byte of the file that a segment puts below the top of memory is found, unless a segment
before it in the table is loaded over it.
-/
import DwarfOne.Proofs.Image.Addresses

namespace DwarfOne

/-! ## Stretches -/

namespace Range

variable {r : Range} {place : UInt32}

/-- The places of a stretch, counted on from its start. -/
def Covers (r : Range) (place : Nat) : Prop :=
  r.start.toNat ≤ place ∧ place < r.start.toNat + r.size.toNat

/-- One past the last place, which need not be an address. -/
def top (r : Range) : Nat :=
  r.start.toNat + r.size.toNat

theorem contains_iff_covers :
    r.contains place = true ↔ r.Covers place.toNat ∧ r.top < 2 ^ 32 := by
  constructor
  · intro h
    exact ⟨bounds_of_contains h, add_lt_of_contains h⟩
  · rintro ⟨⟨hstart, hplace⟩, htop⟩
    rw [contains_iff, UInt32.le_iff_toNat_le, UInt32.lt_iff_toNat_lt, toNat_stop htop]
    exact ⟨hstart, hplace⟩

theorem contains_eq_false_iff :
    r.contains place = false ↔ (r.Covers place.toNat → 2 ^ 32 ≤ r.top) := by
  rw [← Bool.not_eq_true, contains_iff_covers, not_and, Nat.not_lt]

theorem toNat_start_add {d : Nat} (h : r.Covers (r.start.toNat + d)) (htop : r.top < 2 ^ 32) :
    (r.start + .ofNat d).toNat = r.start.toNat + d := by
  have hplace : r.start.toNat + d < 2 ^ 32 := Nat.lt_trans h.2 htop
  have hd : d < 2 ^ 32 := by omega
  rw [UInt32.toNat_add, UInt32.toNat_ofNat_of_lt' hd]
  exact Nat.mod_eq_of_lt hplace

end Range

/-! ## Bytes -/

namespace Segment

variable {s : Segment} {address : UInt32}

/-- The bytes from an address on start with the byte at its place in the file. -/
theorem head?_bytesFrom (bytes : Array UInt8) (h : s.depth address < s.file.size.toNat) :
    (s.bytesFrom bytes address).head? = bytes[s.file.start.toNat + s.depth address]? := by
  rw [bytesFrom, Array.toList_extract, List.extract_eq_take_drop, List.head?_take,
    List.head?_drop, if_neg (by omega), Array.getElem?_toList]

end Segment

namespace Image

variable {bytes : Array UInt8} {image : Image} {i d : Nat} {s : Segment}

/-- No segment before this one in the table is in the way. -/
theorem firstAt_of_covers (hs : image.segments[i]? = some s) (htype : s.type = .load)
    (htop : s.memory.top < 2 ^ 32) (hcovers : s.memory.Covers (s.memory.start.toNat + d))
    (hclear : ∀ j < i, ∀ t, image.segments[j]? = some t → t.type = .load →
      t.memory.Covers (s.memory.start.toNat + d) → 2 ^ 32 ≤ t.memory.top) :
    image.FirstAt (s.memory.start + .ofNat d) i s := by
  have haddress := Range.toNat_start_add hcovers htop
  constructor
  case get => exact hs
  case load => exact htype
  case contains =>
      rw [Range.contains_iff_covers, haddress]
      exact ⟨hcovers, htop⟩
  case first =>
      intro j hj t ht hload
      rw [Range.contains_eq_false_iff, haddress]
      exact hclear j hj t ht hload

/-- Which bytes of a file are found in the image. -/
structure FileBacked (bytes : Array UInt8) (image : Image) : Prop where
  /-- A segment is in the way only if it ends below the top of memory too. -/
  found : ∀ (i : Nat) (s : Segment) (d : Nat), image.segments[i]? = some s → s.type = .load →
    s.memory.top < 2 ^ 32 → d < min s.file.size.toNat s.memory.size.toNat →
    (∀ j < i, ∀ t, image.segments[j]? = some t → t.type = .load →
      t.memory.Covers (s.memory.start.toNat + d) → 2 ^ 32 ≤ t.memory.top) →
    ∃ b rest, bytes[s.file.start.toNat + d]? = some b ∧
      image.dataAt? (s.memory.start + .ofNat d) = some (b :: rest)
  /-- A segment that reaches the top of memory might as well not be there. -/
  lost : ∀ address : UInt32,
    (∀ s ∈ image.segments, s.type = .load → s.memory.Covers address.toNat →
      2 ^ 32 ≤ s.memory.top) → image.dataAt? address = none

/-- In an image that loads, a byte that a segment puts below the top of memory is found, and a
stretch up to there contains what it covers unless it ends exactly at the top. -/
theorem fileBacked_of_load (h : load bytes = .ok image) (hsize : bytes.size < 2 ^ 32) :
    FileBacked bytes image ∧ ∀ (r : Range) (place : UInt32), r.top ≤ 2 ^ 32 →
      (r.contains place = true ↔ r.Covers place.toNat ∧ r.top ≠ 2 ^ 32) := by
  refine ⟨⟨?_, ?_⟩, ?_⟩
  · intro i s d hs htype htop hd hclear
    have hcovers : s.memory.Covers (s.memory.start.toNat + d) := by
      rw [Range.Covers]
      omega
    have hfirst := firstAt_of_covers hs htype htop hcovers hclear
    have hdepth : s.depth (s.memory.start + .ofNat d) = d := by
      rw [Segment.depth, Range.toNat_start_add hcovers htop]
      omega
    have hbacked : s.depth (s.memory.start + .ofNat d) < s.file.size.toNat := by omega
    obtain ⟨-, hne, hdata⟩ := (mapped_of_load h hsize hfirst).data hbacked
    obtain ⟨b, rest, hcons⟩ := List.exists_cons_of_ne_nil hne
    have hhead := Segment.head?_bytesFrom image.bytes hbacked
    rw [hcons, hdepth, bytes_of_load h] at hhead
    exact ⟨b, rest, hhead.symm, hdata.trans (congrArg some hcons)⟩
  · intro address hnone
    refine dataAt?_of_loadSegmentIndex?_eq_none (loadSegmentIndex?_eq_none_iff.mpr ?_)
    intro s hs htype
    exact Range.contains_eq_false_iff.mpr (hnone s hs htype)
  · intro r place hle
    rw [Range.contains_iff_covers]
    exact and_congr_right' (by omega)

theorem fileBacked_sampleFile : sampleFile.size < 2 ^ 32 ∧
    ∃ image, load sampleFile = .ok image ∧ FileBacked sampleFile image := by
  have hsize : sampleFile.size < 2 ^ 32 := by decide +kernel
  obtain ⟨image, h⟩ := exists_load_sampleFile
  exact ⟨hsize, image, h, (fileBacked_of_load h hsize).1⟩

/-- A file with one segment, the last four bytes of memory: a branch, as a processor starts
there. -/
def bootRom : Array UInt8 :=
  let half := ByteOrder.big.bytes 2
  let word := ByteOrder.big.bytes 4
  let identification : List UInt8 := [0x7f, 0x45, 0x4c, 0x46, 1, 2, 1] ++ List.replicate 9 0
  let header := [2, 20].flatMap half ++ [1, 0xfffffffc, 52, 0, 0].flatMap word ++
    [52, 32, 1, 40, 0, 0].flatMap half
  let segment := [1, 84, 0xfffffffc, 0xfffffffc, 4, 4, 5, 4].flatMap word
  (identification ++ header ++ segment ++ [0x4b, 0xff, 0xff, 0x00]).toArray

/-- The segment is loaded, its bytes are in the file and no other segment is in the way, but
nothing is found at its first address. -/
theorem bootRom_notFound : ∃ image s, load bootRom = .ok image ∧ image.segments = #[s] ∧
    s.type = .load ∧ s.memory.top = 2 ^ 32 ∧ s.memory.Covers 0xfffffffc ∧
    0 < min s.file.size.toNat s.memory.size.toNat ∧ bootRom[s.file.start.toNat]? = some 0x4b ∧
    s.memory.contains 0xfffffffc = false ∧ image.dataAt? s.memory.start = none := by
  have hview : (load bootRom).toOption.map (fun image =>
      (image.segments, image.dataAt? 0xfffffffc)) =
        some (#[{ type := .load, file := ⟨84, 4⟩, memory := ⟨0xfffffffc, 4⟩
                  physical := 0xfffffffc, flags := ⟨5⟩, align := 4 }], none) := by
    decide +kernel
  cases h : load bootRom with
  | error e =>
      rw [h] at hview
      cases hview
  | ok image =>
      rw [h] at hview
      obtain ⟨hsegments, hdata⟩ := Prod.mk.inj (Option.some.inj hview)
      refine ⟨image, _, rfl, hsegments, rfl, by decide, ?_, by decide, by decide +kernel,
        by decide, hdata⟩
      exact ⟨by decide, by decide⟩

end Image

end DwarfOne
