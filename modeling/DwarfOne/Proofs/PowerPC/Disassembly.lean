/-
# `Proofs.PowerPC.Disassembly` — the instructions of a stretch of code

Code is taken apart word by word, and up to three bytes at its end are left over.  The words
are those of the file: an address leads to a segment and the segment to a place in the file,
and from there on both go up by four.
-/
import DwarfOne.PowerPC.Disassembly
import DwarfOne.Proofs.Image.Addresses

namespace DwarfOne

/-! ## The bytes of the code -/

namespace Image

variable {image : Image} {start stop : UInt32}

/-- What is found at one address goes on as far as the other. -/
structure Covers (image : Image) (start stop : UInt32) (data : List UInt8) : Prop where
  start_le : start ≤ stop
  data_eq : image.dataAt? start = some data
  length_le : stop.toNat - start.toNat ≤ data.length

theorem code_cases (image : Image) (start stop : UInt32) :
    (∃ data, image.Covers start stop data ∧
        image.code start stop = .ok (data.take (stop.toNat - start.toNat))) ∨
      (∀ data, ¬ image.Covers start stop data) ∧
        image.code start stop = .error (.unmapped start stop) := by
  unfold code
  by_cases hlt : stop < start
  · refine .inr ⟨fun data hcovers => ?_, if_pos hlt⟩
    exact UInt32.not_lt.mpr hcovers.start_le hlt
  have hle : start ≤ stop := UInt32.not_lt.mp hlt
  have hdistance : (stop - start).toNat = stop.toNat - start.toNat :=
    UInt32.toNat_sub_of_le _ _ hle
  rw [if_neg hlt, hdistance]
  cases hdata : image.dataAt? start with
  | none =>
      refine .inr ⟨fun data hcovers => ?_, rfl⟩
      cases hdata.symm.trans hcovers.data_eq
  | some data =>
      by_cases hshort : data.length < stop.toNat - start.toNat
      · refine .inr ⟨fun data' hcovers => ?_, if_pos hshort⟩
        cases hdata.symm.trans hcovers.data_eq
        exact Nat.not_lt.mpr hcovers.length_le hshort
      · exact .inl ⟨data, ⟨hle, hdata, Nat.not_lt.mp hshort⟩, if_neg hshort⟩

end Image

namespace PowerPC

/-! ## Words -/

/-- The word at a place in some bytes. -/
def wordIn (order : ByteOrder) (bytes : List UInt8) (place : Nat) : UInt32 :=
  .ofNat (order.value ((bytes.drop place).take 4))

section Words

variable {order : ByteOrder} {address : UInt32} {bytes : List UInt8} {place : Nat}

/-- One instruction for each word, at its own address. -/
theorem decodeAll_eq : decodeAll order address bytes =
    (List.range (bytes.length / 4)).map fun i =>
      decode (wordIn order bytes (4 * i)) (address + .ofNat (4 * i)) := by
  fun_induction decodeAll order address bytes with
  | case1 address a b c d rest ih =>
      have hcount : (a :: b :: c :: d :: rest).length / 4 = rest.length / 4 + 1 := by
        simp only [List.length_cons]
        omega
      have haddress : ∀ i, address + 4 + .ofNat (4 * i) = address + .ofNat (4 * (i + 1)) := by
        intro i
        rw [Nat.mul_succ, Nat.add_comm (4 * i), UInt32.ofNat_add, ← UInt32.add_assoc]
        rfl
      rw [hcount, List.range_succ_eq_map, List.map_cons, List.map_map, ih]
      congr 1
      · simp [wordIn]
      · refine List.map_congr_left fun i _ => ?_
        rw [haddress]
        rfl
  | case2 bytes address hshort =>
      have hlength : bytes.length < 4 := by
        rcases bytes with _ | ⟨a, _ | ⟨b, _ | ⟨c, _ | ⟨d, rest⟩⟩⟩⟩
        · simp
        · simp
        · simp
        · simp
        · exact absurd rfl (hshort a b c d rest)
      rw [Nat.div_eq_of_lt hlength]
      rfl

/-- Bytes behind a word make no difference to it. -/
theorem wordIn_take {n : Nat} (h : place + 4 ≤ n) :
    wordIn order (bytes.take n) place = wordIn order bytes place := by
  have hleft : min 4 (n - place) = 4 := by omega
  rw [wordIn, wordIn, List.drop_take, List.take_take, hleft]

/-- A word of a part of the file is one of the file. -/
theorem wordIn_extract {file : Array UInt8} {low high : Nat} (h : low + place + 4 ≤ high) :
    wordIn order (file.extract low high).toList place =
      Image.wordAt order file (low + place) := by
  have hleft : min (low + place + 4) high = low + place + 4 := by omega
  rw [wordIn, Image.wordAt, Image.numberAt, Array.toList_extract, Array.toList_extract,
    List.extract_eq_drop_take', List.extract_eq_drop_take', List.drop_drop, List.take_drop,
    List.take_take, hleft]

end Words

/-! ## Instructions -/

/-- What the instructions from one address up to another are, given the bytes from the
first one on. -/
structure Listing (image : Image) (start stop : UInt32) (data : List UInt8)
    (listing : List Instruction) : Prop where
  length_eq : listing.length = (stop.toNat - start.toNat) / 4
  get : ∀ i < listing.length, listing[i]? =
    some (decode (wordIn image.order data (4 * i)) (start + .ofNat (4 * i)))
  increasing : listing.Pairwise (·.address < ·.address)
  below : ∀ x ∈ listing, x.address < stop

section Listings

variable {image : Image} {start stop : UInt32} {data : List UInt8}

/-- Addresses of whole words do not wrap around. -/
theorem toNat_add_ofNat {i : Nat} (h : i < (stop.toNat - start.toNat) / 4) :
    (start + .ofNat (4 * i)).toNat = start.toNat + 4 * i ∧ start.toNat + 4 * i < stop.toNat := by
  have hstop := stop.toNat_lt
  have hsmall : 4 * i < 2 ^ 32 := by omega
  refine ⟨?_, by omega⟩
  rw [UInt32.toNat_add, UInt32.toNat_ofNat_of_lt' hsmall]
  exact Nat.mod_eq_of_lt (by omega)

theorem listing_of_covers (h : image.Covers start stop data) :
    Listing image start stop data
      (decodeAll image.order start (data.take (stop.toNat - start.toNat))) := by
  have hlength : (data.take (stop.toNat - start.toNat)).length = stop.toNat - start.toNat :=
    List.length_take_of_le h.length_le
  rw [decodeAll_eq, hlength]
  constructor
  case length_eq => rw [List.length_map, List.length_range]
  case get =>
      intro i hi
      rw [List.length_map, List.length_range] at hi
      rw [List.getElem?_map, List.getElem?_range hi, Option.map_some, wordIn_take (by omega)]
  case increasing =>
      refine List.pairwise_map.mpr (List.pairwise_lt_range.imp_of_mem fun {i j} hi hj hlt => ?_)
      obtain ⟨hi, -⟩ := toNat_add_ofNat (List.mem_range.mp hi)
      obtain ⟨hj, -⟩ := toNat_add_ofNat (List.mem_range.mp hj)
      show start + .ofNat (4 * i) < start + .ofNat (4 * j)
      rw [UInt32.lt_iff_toNat_lt, hi, hj]
      omega
  case below =>
      intro x hx
      obtain ⟨i, hi, rfl⟩ := List.mem_map.mp hx
      obtain ⟨haddress, hbelow⟩ := toNat_add_ofNat (List.mem_range.mp hi)
      show start + .ofNat (4 * i) < stop
      rw [UInt32.lt_iff_toNat_lt, haddress]
      exact hbelow

theorem disassemble_cases (image : Image) (start stop : UInt32) :
    (∃ data listing, image.Covers start stop data ∧ Listing image start stop data listing ∧
        disassemble image start stop = .ok listing) ∨
      (∀ data, ¬ image.Covers start stop data) ∧
        disassemble image start stop = .error (.unmapped start stop) := by
  rcases image.code_cases start stop with ⟨data, hcovers, hcode⟩ | ⟨hnone, hcode⟩
  · refine .inl ⟨data, _, hcovers, listing_of_covers hcovers, ?_⟩
    rw [disassemble, hcode]
    rfl
  · refine .inr ⟨hnone, ?_⟩
    rw [disassemble, hcode]
    rfl

/-- The words are those at the place of the first address in the file. -/
theorem Listing.exists_wordAt {listing : List Instruction}
    (h : Listing image start stop data listing) (hcovers : image.Covers start stop data)
    {file : Array UInt8} (hload : Image.load file = .ok image) (hsize : file.size < 2 ^ 32)
    {i : Nat} {x : Instruction} (hx : listing[i]? = some x) :
    ∃ k s, image.FirstAt start k s ∧
      x = decode (Image.wordAt image.order file (s.file.start.toNat + s.depth start + 4 * i))
        (start + .ofNat (4 * i)) := by
  obtain ⟨k, s, hfirst, hfits, rfl⟩ :=
    Image.exists_firstAt_of_dataAt? hload hsize hcovers.data_eq
  refine ⟨k, s, hfirst, ?_⟩
  have hi : i < listing.length := (List.getElem?_eq_some_iff.mp hx).1
  have hcount := h.length_eq
  have hlength := hcovers.length_le
  rw [Segment.length_bytesFrom hfits] at hlength
  rw [h.get i hi, Option.some.injEq, Segment.bytesFrom, wordIn_extract (by omega)] at hx
  exact hx.symm

end Listings

/-- What disassembling a part of an image comes to. -/
structure Disassembled (file : Array UInt8) (image : Image) (start stop : UInt32) : Prop where
  ok_iff : (∃ listing, disassemble image start stop = .ok listing) ↔
    ∃ data, image.Covers start stop data
  listing : ∀ listing data, disassemble image start stop = .ok listing →
    image.dataAt? start = some data → Listing image start stop data listing
  /-- The words are those at the place of the first address in the file. -/
  inFile : ∀ listing i x, disassemble image start stop = .ok listing → listing[i]? = some x →
    ∃ k s, image.FirstAt start k s ∧
      x = decode (Image.wordAt image.order file (s.file.start.toNat + s.depth start + 4 * i))
        (start + .ofNat (4 * i))
  error : ∀ e, disassemble image start stop = .error e → e = .unmapped start stop

/-- In an image that loads, code is either there from the first address to the last, and then
so are all its instructions, or it is said that it is not. -/
theorem disassembled_of_load {file : Array UInt8} {image : Image}
    (h : Image.load file = .ok image) (hsize : file.size < 2 ^ 32) (start stop : UInt32) :
    Disassembled file image start stop := by
  rcases disassemble_cases image start stop with ⟨data, listing, hcovers, hlisting, hok⟩ |
      ⟨hnone, herror⟩
  · constructor
    case ok_iff => exact ⟨fun _ => ⟨data, hcovers⟩, fun _ => ⟨listing, hok⟩⟩
    case listing =>
        intro listing' data' hok' hdata'
        cases hok.symm.trans hok'
        cases hcovers.data_eq.symm.trans hdata'
        exact hlisting
    case inFile =>
        intro listing' i x hok' hx
        cases hok.symm.trans hok'
        exact hlisting.exists_wordAt hcovers h hsize hx
    case error =>
        intro e he
        cases hok.symm.trans he
  · constructor
    case ok_iff =>
        constructor
        · rintro ⟨listing, hok⟩
          cases herror.symm.trans hok
        · rintro ⟨data, hcovers⟩
          exact absurd hcovers (hnone data)
    case listing =>
        intro listing data hok
        cases herror.symm.trans hok
    case inFile =>
        intro listing i x hok
        cases herror.symm.trans hok
    case error =>
        intro e he
        cases herror.symm.trans he
        rfl

theorem disassembled_sampleFile : Image.sampleFile.size < 2 ^ 32 ∧
    ∃ image, Image.load Image.sampleFile = .ok image ∧
      Disassembled Image.sampleFile image 0x8000 0x8004 := by
  have hsize : Image.sampleFile.size < 2 ^ 32 := by decide +kernel
  obtain ⟨image, h⟩ := Image.exists_load_sampleFile
  exact ⟨hsize, image, h, disassembled_of_load h hsize 0x8000 0x8004⟩

-- a whole word, too few bytes for one, and more bytes than there are
example : (Image.load Image.sampleFile).toOption.map (fun image =>
      [(0x8000, 0x8004), (0x8001, 0x8004), (0x8002, 0x8006)].map fun range =>
        disassemble image range.1 range.2) =
    some [.ok [⟨0x8000, "blr", ""⟩], .ok [], .error (.unmapped 0x8002 0x8006)] := by
  decide +kernel

end PowerPC

end DwarfOne
