/-
# `Proofs.Report.HexDump` — a dump read back

The bytes of a row are read back from its column of digits by cutting it at the blanks, those
between the bytes and those that fill a short row up.  The rows are first put at their places
(`rows_eq`): row `r` shows the sixteen bytes from `16 * r` on, or what is left of them.  All
that is said of a dump then is said of one row.

The data at an address is cut out by a 32-bit size, so the distances that label the rows do not
wrap around.  The addresses do where the file has more bytes for a segment than the memory.
-/
import DwarfOne.Report.HexDump
import DwarfOne.Proofs.Image.Addresses
import DwarfOne.Proofs.Text.Numeral
import Mathlib.Data.List.Forall2

namespace DwarfOne

namespace Numeral

/-- A number in lower case hexadecimal digits that fill a width. -/
structure FixedHex (width n : Nat) (text : List Char) : Prop extends
    Hexadecimal lowerDigits n text where
  length_eq : text.length = width

theorem fixedHex_zeroPadded {width n : Nat} (hwidth : 0 < width) (h : n < 16 ^ width) :
    FixedHex width n (zeroPadded width (hex n)).toList := by
  have hlength : (hex n).toList.length ≤ width := by
    rw [hex, String.toList_ofList]
    exact (Nat.length_toDigits_le_iff (by decide) hwidth).mpr h
  refine ⟨hexadecimal_zeroPadded width n, ?_⟩
  rw [zeroPadded, String.toList_append, String.toList_ofList, List.length_append,
    List.length_replicate, ← String.length_toList]
  omega

end Numeral

namespace HexDump

open Numeral

/-! ## Columns read back -/

def byte? (word : List Char) : Option UInt8 :=
  if word.length = 2 then (digits? 16 word).map UInt8.ofNat else none

/-- What stands between blanks. -/
def words (text : List Char) : List (List Char) :=
  (text.splitOn ' ').filter (!·.isEmpty)

/-- The bytes that a column of digits shows. -/
def bytes? (column : String) : Option (List UInt8) :=
  (words column.toList).mapM byte?

theorem words_append_blanks (text : List Char) (k : Nat) :
    words (text ++ List.replicate k ' ') = words text := by
  induction k with
  | zero => rw [List.replicate_zero, List.append_nil]
  | succ k ih =>
      have hblank : List.replicate (k + 1) ' ' = List.replicate k ' ' ++ [' '] :=
        List.replicate_succ'
      rw [hblank, ← List.append_assoc, words, List.splitOn_append_cons_self, List.filter_append]
      rw [words] at ih
      rw [ih]
      exact List.append_nil _

theorem words_intercalate {ws : List (List Char)} (hne : ∀ w ∈ ws, w ≠ [])
    (hblank : ∀ w ∈ ws, ' ' ∉ w) : words ([' '].intercalate ws) = ws := by
  by_cases hws : ws = []
  · rw [hws]
    rfl
  · rw [words, List.splitOn_intercalate _ hblank hws, List.filter_eq_self]
    intro w hw
    simp [hne w hw]

/-- The two digits of a byte. -/
def cell (b : UInt8) : List Char :=
  (zeroPadded 2 (hex b.toNat)).toList

theorem fixedHex_cell (b : UInt8) : FixedHex 2 b.toNat (cell b) :=
  fixedHex_zeroPadded (by decide) b.toNat_lt

theorem byte?_cell (b : UInt8) : byte? (cell b) = some b := by
  rw [byte?, if_pos (fixedHex_cell b).length_eq, (fixedHex_cell b).value, Option.map_some,
    UInt8.ofNat_toNat]

theorem blank_notMem_cell (b : UInt8) : ' ' ∉ cell b := by
  intro hblank
  have hdigit := (fixedHex_cell b).mem ' ' hblank
  revert hdigit
  decide

theorem cell_ne_nil (b : UInt8) : cell b ≠ [] := by
  intro hnil
  have hlength := (fixedHex_cell b).length_eq
  rw [hnil] at hlength
  cases hlength

theorem length_intercalate_cells (bytes : List UInt8) :
    ([' '].intercalate (bytes.map cell)).length = 3 * bytes.length - 1 := by
  induction bytes with
  | nil => rfl
  | cons b bytes ih =>
      cases bytes with
      | nil => exact (congrArg List.length (List.append_nil _)).trans (fixedHex_cell b).length_eq
      | cons b' bytes =>
          rw [List.map_cons, List.map_cons, List.intercalate_cons_cons, ← List.map_cons,
            List.length_append, List.length_append, ih, (fixedHex_cell b).length_eq]
          simp only [List.length_cons, List.length_nil]
          omega

/-- The digits of a row's bytes, and blanks that fill it up. -/
theorem toList_digits (bytes : List UInt8) : (digits bytes).toList =
    [' '].intercalate (bytes.map cell) ++ List.replicate (47 - (3 * bytes.length - 1)) ' ' := by
  have hcells : (" ".intercalate (bytes.map fun b => zeroPadded 2 (hex b.toNat))).toList =
      [' '].intercalate (bytes.map cell) := by
    rw [String.toList_intercalate, List.map_map]
    rfl
  rw [digits, padRight, String.toList_append, String.toList_ofList, ← String.length_toList, hcells,
    length_intercalate_cells]
  rfl

theorem length_digits {bytes : List UInt8} (h : bytes.length ≤ 16) :
    (digits bytes).length = 47 := by
  rw [← String.length_toList, toList_digits, List.length_append, List.length_replicate,
    length_intercalate_cells]
  omega

theorem bytes?_digits (bytes : List UInt8) : bytes? (digits bytes) = some bytes := by
  have hwords : words ([' '].intercalate (bytes.map cell)) = bytes.map cell := by
    apply words_intercalate
    · intro w hw
      obtain ⟨b, -, rfl⟩ := List.mem_map.mp hw
      exact cell_ne_nil b
    · intro w hw
      obtain ⟨b, -, rfl⟩ := List.mem_map.mp hw
      exact blank_notMem_cell b
  have hcells : byte? ∘ cell = fun b => pure (id b) := by
    funext b
    rw [Function.comp_apply, byte?_cell]
    rfl
  rw [bytes?, toList_digits, words_append_blanks, hwords, List.mapM_map, hcells,
    List.mapM_pure, List.map_id]
  rfl

/-- A byte that is printable ASCII is shown as itself, any other as a dot. -/
def ShownAs (b : UInt8) (c : Char) : Prop :=
  if 0x20 ≤ b.toNat ∧ b.toNat ≤ 0x7e then c.toNat = b.toNat else c = '.'

theorem shownAs_printable (b : UInt8) : ShownAs b (printable b) := by
  have hbounds : 0x20 ≤ b ∧ b ≤ 0x7e ↔ 0x20 ≤ b.toNat ∧ b.toNat ≤ 0x7e := by
    rw [UInt8.le_iff_toNat_le, UInt8.le_iff_toNat_le]
    rfl
  rw [ShownAs, printable]
  by_cases h : 0x20 ≤ b.toNat ∧ b.toNat ≤ 0x7e
  · rw [if_pos h, if_pos (hbounds.mpr h)]
    have hvalid : b.toNat.isValidChar := .inl (by omega)
    rw [Char.ofNat, dif_pos hvalid]
    rfl
  · rw [if_neg h, if_neg fun hb => h (hbounds.mp hb)]

/-! ## Rows -/

/-- A row shows bytes in digits, and once more as characters. -/
structure Row.Shows (row : Row) (bytes : List UInt8) : Prop where
  width : row.hex.length = 47
  hex : bytes? row.hex = some bytes
  ascii : List.Forall₂ ShownAs bytes row.ascii.toList

/-- Eight digits and two blanks. -/
def IsLabel (n : Nat) (text : String) : Prop :=
  ∃ digits, text.toList = digits ++ [' ', ' '] ∧ FixedHex 8 n digits

/-- What a row starts with. -/
def Labelled (labels : HexLabels) (address : UInt32) (r : Nat) (text : String) : Prop :=
  match labels with
  | .none => text = ""
  | .address => IsLabel ((address.toNat + 16 * r) % 2 ^ 32) text
  | .zero => IsLabel (16 * r) text

/-- The bytes of row `r`. -/
def chunk (bytes : List UInt8) (r : Nat) : List UInt8 :=
  (bytes.drop (16 * r)).take 16

/-- A row of bytes that are so far on from the address. -/
def rowOf (labels : HexLabels) (address delta : UInt32) (bytes : List UInt8) : Row where
  label := label labels address delta
  hex := digits bytes
  ascii := String.ofList (bytes.map printable)

section Rows

variable {labels : HexLabels} {address delta : UInt32} {bytes : List UInt8} {r fuel : Nat}

theorem isLabel_zeroPadded {word : UInt32} {n : Nat} (h : word.toNat = n) :
    IsLabel n (zeroPadded 8 (hex word.toNat) ++ "  ") := by
  rw [← h]
  refine ⟨_, ?_, fixedHex_zeroPadded (by decide) word.toNat_lt⟩
  rw [String.toList_append]
  rfl

theorem labelled_label (h : 16 * r < 2 ^ 32) :
    Labelled labels address r (label labels address (.ofNat (16 * r))) := by
  have hdistance : (UInt32.ofNat (16 * r)).toNat = 16 * r := UInt32.toNat_ofNat_of_lt' h
  cases labels with
  | none => rfl
  | address =>
      apply isLabel_zeroPadded
      rw [UInt32.toNat_add, hdistance]
  | zero => exact isLabel_zeroPadded hdistance

theorem shows_rowOf (h : bytes.length ≤ 16) : (rowOf labels address delta bytes).Shows bytes := by
  constructor
  case width => exact length_digits h
  case hex => exact bytes?_digits bytes
  case ascii =>
      rw [rowOf, String.toList_ofList, List.forall₂_map_right_iff, List.forall₂_same]
      intro b _
      exact shownAs_printable b

theorem rowsFrom_of_ne_nil (h : bytes ≠ []) :
    rowsFrom labels address (fuel + 1) delta bytes =
      rowOf labels address delta (chunk bytes 0) ::
        rowsFrom labels address fuel (delta + 16) (bytes.drop 16) := by
  cases bytes with
  | nil => exact absurd rfl h
  | cons b rest => rfl

theorem chunk_drop : chunk (bytes.drop 16) r = chunk bytes (r + 1) := by
  rw [chunk, chunk, List.drop_drop, Nat.mul_succ, Nat.add_comm]

/-- Rows that start at row `start` of a dump. -/
theorem rowsFrom_eq (hfuel : bytes.length ≤ fuel) (start : Nat) :
    rowsFrom labels address fuel (.ofNat (16 * start)) bytes =
      (List.range ((bytes.length + 15) / 16)).map fun r =>
        rowOf labels address (.ofNat (16 * (start + r))) (chunk bytes r) := by
  induction fuel generalizing start bytes with
  | zero =>
      obtain rfl := List.eq_nil_of_length_eq_zero (Nat.le_zero.mp hfuel)
      rfl
  | succ fuel ih =>
      by_cases hnil : bytes = []
      · rw [hnil]
        rfl
      · have hpos : 0 < bytes.length := List.length_pos_iff.mpr hnil
        have hrest : (bytes.drop 16).length = bytes.length - 16 := List.length_drop
        have hcount : (bytes.length + 15) / 16 = ((bytes.drop 16).length + 15) / 16 + 1 := by
          omega
        have hnext : UInt32.ofNat (16 * start) + 16 = .ofNat (16 * (start + 1)) := by
          rw [Nat.mul_succ, UInt32.ofNat_add]
          rfl
        rw [rowsFrom_of_ne_nil hnil, hnext, ih (by omega), hcount, List.range_succ_eq_map,
          List.map_cons, List.map_map]
        refine congrArg _ (List.map_congr_left fun r _ => ?_)
        rw [Function.comp_apply, chunk_drop, Nat.succ_eq_add_one, Nat.add_right_comm,
          Nat.add_assoc]

theorem rows_eq : rows labels address bytes =
    (List.range ((bytes.length + 15) / 16)).map fun r =>
      rowOf labels address (.ofNat (16 * r)) (chunk bytes r) := by
  have hrows : rows labels address bytes = _ := rowsFrom_eq (Nat.le_refl bytes.length) 0
  simp only [Nat.zero_add] at hrows
  exact hrows

/-- The bytes of the first rows, one row after the other. -/
theorem flatten_chunks (bytes : List UInt8) (k : Nat) :
    ((List.range k).map (chunk bytes)).flatten = bytes.take (16 * k) := by
  induction k with
  | zero => rfl
  | succ k ih =>
      rw [List.range_succ, List.map_append, List.flatten_append, ih, Nat.mul_succ, List.take_add]
      exact congrArg _ (List.append_nil _)

/-- The rows of a dump show the bytes, all of them in full but for the last. -/
structure Dumps (labels : HexLabels) (address : UInt32) (bytes : List UInt8)
    (rows : List Row) : Prop where
  readBack : (rows.mapM fun row => bytes? row.hex).map List.flatten = some bytes
  row : ∀ r row, rows[r]? = some row → Labelled labels address r row.label ∧
    ∃ shown, row.Shows shown ∧ (r + 1 < rows.length → shown.length = 16)

theorem dumps_rows (h : bytes.length < 2 ^ 32) :
    Dumps labels address bytes (rows labels address bytes) := by
  rw [rows_eq]
  constructor
  case readBack =>
      have hshown : (fun r => bytes? (rowOf labels address (.ofNat (16 * r)) (chunk bytes r)).hex) =
          fun r => pure (chunk bytes r) :=
        funext fun r => bytes?_digits (chunk bytes r)
      rw [List.mapM_map, Function.comp_def, hshown, List.mapM_pure, Option.pure_def,
        Option.map_some, flatten_chunks, List.take_of_length_le (by omega)]
  case row =>
      intro r row hrow
      rw [List.length_map, List.length_range]
      rw [List.getElem?_map, Option.map_eq_some_iff] at hrow
      obtain ⟨i, hi, rfl⟩ := hrow
      obtain ⟨hr, rfl⟩ := List.getElem?_eq_some_iff.mp hi
      rw [List.length_range] at hr
      rw [List.getElem_range]
      have hlength : (chunk bytes r).length = min 16 (bytes.length - 16 * r) := by
        rw [chunk, List.length_take, List.length_drop]
      exact ⟨labelled_label (by omega), _, shows_rowOf (by omega), fun hlast => by omega⟩

end Rows

-- the second row's address wraps around, and its one byte is not printable
example : (rows .address 0xfffffff0 (List.replicate 16 0x41 ++ [0x7f])).map
    (fun row => (row.label, bytes? row.hex, row.ascii)) =
      [("fffffff0  ", some (List.replicate 16 0x41), "AAAAAAAAAAAAAAAA"),
        ("00000000  ", some [0x7f], ".")] := by
  decide +kernel

end HexDump

namespace Image

variable {image : Image} {address : UInt32} {data : List UInt8}

theorem length_lt_of_dataAt? (h : image.dataAt? address = some data) : data.length < 2 ^ 32 := by
  cases hindex : image.loadSegmentIndex? address with
  | none => cases (dataAt?_of_loadSegmentIndex?_eq_none hindex).symm.trans h
  | some i =>
      obtain ⟨s, hfirst⟩ := exists_firstAt hindex
      rw [dataAt?_of_firstAt hfirst] at h
      obtain ⟨offset, -, hslice⟩ := Option.bind_eq_some_iff.mp h
      have hsize := (s.file.stop - offset).toNat_lt
      generalize (s.file.stop - offset).toNat = size at hslice hsize
      cases hok : slice image.bytes offset.toNat size with
      | error e =>
          rw [hok] at hslice
          cases hslice
      | ok found =>
          rw [hok] at hslice
          cases hslice
          obtain ⟨hfits, rfl⟩ := slice_eq_ok_iff.mp hok
          rw [Array.length_toList, Array.size_extract]
          omega

/-- What is printed for an address is rows that show the bytes found there, as many as are asked
for or as there are.  A row is its label, its digits and, after two blanks, its characters, each
in its own style. -/
theorem hexDump_readBack (hdata : image.dataAt? address = some data) (paint : Paint)
    (count : Nat) (labels : HexLabels) :
    ∃ rows : List HexDump.Row, (image.hexDump paint address count labels).1 =
        String.join (rows.map fun row => paint .hexOffset row.label ++ paint .hexBytes row.hex ++
          "  " ++ paint .hexAscii row.ascii ++ "\n") ∧
      rows.length = (min count data.length + 15) / 16 ∧
      HexDump.Dumps labels address (data.take count) rows := by
  have hlength : (data.take count).length = min count data.length := List.length_take
  have hshort : (data.take count).length < 2 ^ 32 := by
    have hlt := length_lt_of_dataAt? hdata
    omega
  refine ⟨HexDump.rows labels address (data.take count), ?_, ?_, HexDump.dumps_rows hshort⟩
  · rw [hexDump, hdata]
    rfl
  · rw [HexDump.rows_eq, List.length_map, List.length_range, hlength]

theorem hexDump_readBack_sampleFile : ∃ image, load sampleFile = .ok image ∧
    image.dataAt? 0x8000 = some [0x4e, 0x80, 0x00, 0x20] ∧
    ∃ rows : List HexDump.Row, (image.hexDump Style.apply 0x8000 3 .address).1 =
        String.join (rows.map fun row => Style.hexOffset.apply row.label ++
          Style.hexBytes.apply row.hex ++ "  " ++ Style.hexAscii.apply row.ascii ++ "\n") ∧
      rows.length = 1 ∧ HexDump.Dumps .address 0x8000 [0x4e, 0x80, 0x00] rows := by
  have hfound : (load sampleFile).toOption.map (·.dataAt? 0x8000) =
      some (some [0x4e, 0x80, 0x00, 0x20]) := by decide +kernel
  obtain ⟨image, h⟩ := exists_load_sampleFile
  rw [h] at hfound
  have hdata : image.dataAt? 0x8000 = some [0x4e, 0x80, 0x00, 0x20] := Option.some.inj hfound
  exact ⟨image, h, hdata, hexDump_readBack hdata Style.apply 3 .address⟩

-- with a paint that leaves the texts as they are
example : (HexDump.rows .address 0x8000 [0x4e, 0x80, 0x00]).map
    (HexDump.Row.text fun _ text => text) =
      ["00008000  4e 80 00                                         N.."] := by
  decide +kernel

end Image

end DwarfOne
