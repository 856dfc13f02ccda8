/-
# `Proofs.Bytes.Reads` — a read takes its bytes or leaves them

A plain read needs some bytes where it stands: so many, or all up to the next zero byte.  If
they are there it yields what they stand for and leaves the cursor behind them
(`reader_of_foundAt`), and if not it fails and leaves the cursor as it was
(`reader_of_not_foundAt`).  The offset it starts from may be any, also one past the end.

In `Read.run` a read goes on with the cursor that the one before it left, even if that one
failed.  By the two lemmas a run is one of `Read.Runs`, and what the successful reads took lies
end to end.
-/
import DwarfOne.Proofs.Bytes.Failure

namespace DwarfOne

/-- Bytes that stand at an offset of others. -/
def StandsAt (bytes : List UInt8) (offset : Nat) (piece : List UInt8) : Prop :=
  ∃ before after, before.length = offset ∧ bytes = before ++ (piece ++ after)

theorem StandsAt.add_length_le {bytes piece : List UInt8} {offset : Nat}
    (h : StandsAt bytes offset piece) : offset + piece.length ≤ bytes.length := by
  obtain ⟨before, after, rfl, rfl⟩ := h
  simp only [List.length_append]
  omega

theorem standsAt_of_drop {bytes piece after : List UInt8} {offset : Nat}
    (hoffset : offset ≤ bytes.length) (h : bytes.drop offset = piece ++ after) :
    StandsAt bytes offset piece := by
  refine ⟨bytes.take offset, after, List.length_take_of_le hoffset, ?_⟩
  rw [← h, List.take_append_drop]

theorem Cursor.advance_ofBytes (order : ByteOrder) (bytes : List UInt8) (offset n : Nat) :
    (ofBytes order bytes offset).advance n = ofBytes order bytes (offset + n) := by
  ext1
  · rfl
  · rfl
  · rfl
  · exact List.drop_drop

/-- The plain reads. -/
inductive Read
  | byte
  | half
  | word
  | xword
  | int
  | block (size : Nat)
  | string
  deriving DecidableEq, Repr

/-- What a plain read yields. -/
inductive Datum
  | byte (n : UInt8)
  | half (n : UInt16)
  | word (n : UInt32)
  | xword (n : UInt64)
  | int (n : Int)
  | block (bytes : List UInt8)
  | string (text : String)
  deriving DecidableEq, Repr

namespace Read

def reader : Read → Reader OutOfBounds Datum
  | .byte => .byte <$> Reader.byte
  | .half => .half <$> Reader.half
  | .word => .word <$> Reader.word
  | .xword => .xword <$> Reader.xword
  | .int => .int <$> Reader.int
  | .block size => .block <$> Reader.block size
  | .string => .string <$> Reader.string

/-- Reads one after another, whether those before have failed or not: what came of each, and the
cursor that the last one leaves. -/
def run : List Read → Cursor → List (Except OutOfBounds Datum) × Cursor
  | [], c => ([], c)
  | r :: reads, c =>
      let first := r.reader.attempt c
      let rest := run reads first.2
      (first.1 :: rest.1, rest.2)

/-! ## What is read -/

/-- How many bytes a read takes, if that does not depend on them. -/
def size? : Read → Option Nat
  | .byte => some 1
  | .half => some 2
  | .word => some 4
  | .xword => some 8
  | .int => some 4
  | .block size => some size
  | .string => none

/-- The bytes that a read takes, and what it yields for them. -/
inductive Takes (order : ByteOrder) : Read → List UInt8 → Datum → Prop
  | byte (n : UInt8) : Takes order .byte [n] (.byte n)
  | half (n : UInt16) : Takes order .half (order.bytes 2 n.toNat) (.half n)
  | word (n : UInt32) : Takes order .word (order.bytes 4 n.toNat) (.word n)
  | xword (n : UInt64) : Takes order .xword (order.bytes 8 n.toNat) (.xword n)
  | int (n : Int32) : Takes order .int (order.bytes 4 n.toUInt32.toNat) (.int n.toInt)
  | block (bytes : List UInt8) : Takes order (.block bytes.length) bytes (.block bytes)
  | string {bytes : List UInt8} (h : 0 ∉ bytes) :
      Takes order .string (bytes ++ [0]) (.string (Utf8.text bytes))

/-- The bytes that a read needs at an offset are there. -/
def FoundAt (bytes : List UInt8) (offset : Nat) (r : Read) : Prop :=
  match r.size? with
  | some size => offset + size ≤ bytes.length
  | none => ∃ i, offset ≤ i ∧ bytes[i]? = some 0

/-- What a read that fails complains of. -/
def shortage (bytes : List UInt8) (offset : Nat) (r : Read) : OutOfBounds where
  offset
  size := r.size?.getD ((bytes.drop offset).length + 1)

/-- What a read of so many bytes makes of them. -/
def value (order : ByteOrder) (p : List UInt8) : Read → Datum
  | .byte => .byte (.ofNat (order.value p))
  | .half => .half (.ofNat (order.value p))
  | .word => .word (.ofNat (order.value p))
  | .xword => .xword (.ofNat (order.value p))
  | .int => .int (UInt32.ofNat (order.value p)).toInt32.toInt
  | .block _ => .block p
  | .string => .string (Utf8.text p)

theorem reader_eq {r : Read} {size : Nat} (h : r.size? = some size) (c : Cursor) :
    r.reader c = if c.offset + size ≤ c.stop then
      .ok (r.value c.order (c.unread.take size)) (c.advance size)
      else .error ⟨c.offset, size⟩ c := by
  by_cases hwithin : c.offset + size ≤ c.stop
  · have hnumber := (Reader.number_eq size c).trans (if_pos hwithin)
    rw [if_pos hwithin]
    cases r with
    | string => cases h
    | block n =>
        cases h
        exact Reader.map_of_ok (if_pos hwithin)
    | byte | half | word | xword =>
        cases h
        exact Reader.map_of_ok (Reader.map_of_ok hnumber)
    | int =>
        cases h
        exact Reader.map_of_ok (Reader.map_of_ok (Reader.map_of_ok hnumber))
  · have hnumber := (Reader.number_eq size c).trans (if_neg hwithin)
    rw [if_neg hwithin]
    cases r with
    | string => cases h
    | block n =>
        cases h
        exact Reader.map_of_error (if_neg hwithin)
    | byte | half | word | xword =>
        cases h
        exact Reader.map_of_error (Reader.map_of_error hnumber)
    | int =>
        cases h
        exact Reader.map_of_error (Reader.map_of_error (Reader.map_of_error hnumber))

/-- A number is written as the bytes it was read from. -/
theorem bytes_of_value {order : ByteOrder} {p : List UInt8} {width n : Nat}
    (hwidth : p.length = width) (hn : n = order.value p % 256 ^ width) :
    order.bytes width n = p := by
  subst hwidth
  rw [hn, Nat.mod_eq_of_lt (order.value_lt p), order.bytes_value]

theorem takes_value {r : Read} (order : ByteOrder) {p : List UInt8} (h : r.size? = some p.length) :
    r.Takes order p (r.value order p) := by
  cases r with
  | string => cases h
  | block n =>
      cases h
      exact .block p
  | byte =>
      have hlength : p.length = 1 := (Option.some.inj h).symm
      obtain ⟨b, rfl⟩ := List.length_eq_one_iff.mp hlength
      rw [value, order.value_singleton, UInt8.ofNat_toNat]
      exact .byte b
  | half =>
      have htakes : Takes order .half _ _ := .half (.ofNat (order.value p))
      rwa [bytes_of_value (Option.some.inj h).symm UInt16.toNat_ofNat'] at htakes
  | word =>
      have htakes : Takes order .word _ _ := .word (.ofNat (order.value p))
      rwa [bytes_of_value (Option.some.inj h).symm UInt32.toNat_ofNat'] at htakes
  | xword =>
      have htakes : Takes order .xword _ _ := .xword (.ofNat (order.value p))
      rwa [bytes_of_value (Option.some.inj h).symm UInt64.toNat_ofNat'] at htakes
  | int =>
      have htakes : Takes order .int _ _ := .int (UInt32.ofNat (order.value p)).toInt32
      rwa [UInt32.toUInt32_toInt32,
        bytes_of_value (Option.some.inj h).symm UInt32.toNat_ofNat'] at htakes

/-! ## One read -/

section Step

variable {order : ByteOrder} {bytes : List UInt8} {offset : Nat}

theorem zero_mem_drop_iff : (0 : UInt8) ∈ bytes.drop offset ↔
    ∃ i, offset ≤ i ∧ bytes[i]? = some 0 := by
  simp only [List.mem_iff_getElem?, List.getElem?_drop]
  constructor
  · rintro ⟨i, hi⟩
    exact ⟨offset + i, Nat.le_add_right _ _, hi⟩
  · rintro ⟨i, hoffset, hi⟩
    exact ⟨i - offset, by rwa [Nat.add_sub_cancel' hoffset]⟩

theorem foundAt_iff {r : Read} {size : Nat} (h : r.size? = some size) :
    r.FoundAt bytes offset ↔ offset + size ≤ bytes.length := by
  simp only [FoundAt, h]

theorem foundAt_string_iff : string.FoundAt bytes offset ↔ 0 ∈ bytes.drop offset :=
  zero_mem_drop_iff.symm

/-- A read takes its bytes if they are there. -/
theorem reader_of_foundAt (order : ByteOrder) {r : Read} (h : r.FoundAt bytes offset) :
    ∃ piece value, StandsAt bytes offset piece ∧ r.Takes order piece value ∧
      r.reader (.ofBytes order bytes offset) =
        .ok value (.ofBytes order bytes (offset + piece.length)) := by
  cases hsize : r.size? with
  | some size =>
      rw [foundAt_iff hsize] at h
      have hlength : ((bytes.drop offset).take size).length = size := by
        rw [List.length_take, List.length_drop]
        omega
      refine ⟨(bytes.drop offset).take size, r.value order ((bytes.drop offset).take size),
        standsAt_of_drop (by omega) (List.take_append_drop size _).symm, ?_, ?_⟩
      · exact takes_value order (hsize.trans (congrArg some hlength.symm))
      · rw [reader_eq hsize, Cursor.advance_ofBytes, hlength]
        exact if_pos h
  | none =>
      cases r with
      | string =>
          obtain ⟨q, t, ht, hq⟩ := List.eq_append_cons_of_mem (foundAt_string_iff.mp h)
          have hoffset : offset ≤ bytes.length := by
            have hlength := congrArg List.length ht
            simp only [List.length_drop, List.length_append, List.length_cons] at hlength
            omega
          have hpiece : bytes.drop offset = (q ++ [0]) ++ t := by simp [ht]
          refine ⟨q ++ [0], _, standsAt_of_drop hoffset hpiece, .string hq, ?_⟩
          have hread := Reader.string_eq_ok_iff.mpr
            ⟨q, t, show (Cursor.ofBytes order bytes offset).unread = _ from ht, hq, rfl, rfl⟩
          rw [Cursor.advance_ofBytes] at hread
          rw [List.length_append]
          exact Reader.map_of_ok hread
      | _ => cases hsize

/-- Otherwise it fails, and the cursor it leaves is the one it was given. -/
theorem reader_of_not_foundAt (order : ByteOrder) {r : Read} (h : ¬ r.FoundAt bytes offset) :
    r.reader (.ofBytes order bytes offset) =
      .error (r.shortage bytes offset) (.ofBytes order bytes offset) := by
  cases hsize : r.size? with
  | some size =>
      rw [foundAt_iff hsize] at h
      rw [reader_eq hsize, shortage, hsize]
      exact if_neg h
  | none =>
      cases r with
      | string =>
          rw [foundAt_string_iff] at h
          have hread := Reader.string_eq_error_iff.mpr
            ⟨show 0 ∉ (Cursor.ofBytes order bytes offset).unread from h, rfl, rfl⟩
          exact Reader.map_of_error hread
      | _ => cases hsize

end Step

/-! ## Runs -/

/-- A run of reads from an offset on.  Each takes its bytes and the next one goes on behind them,
or it fails and the next one starts where it did. -/
inductive Runs (order : ByteOrder) (bytes : List UInt8) :
    Nat → List Read → List (Except OutOfBounds Datum) → Nat → Prop
  | nil {offset : Nat} : Runs order bytes offset [] [] offset
  | taken {offset stop : Nat} {r : Read} {reads : List Read} {piece : List UInt8} {value : Datum}
      {results : List (Except OutOfBounds Datum)} (hfound : r.FoundAt bytes offset)
      (hpiece : StandsAt bytes offset piece) (htakes : r.Takes order piece value)
      (hrest : Runs order bytes (offset + piece.length) reads results stop) :
      Runs order bytes offset (r :: reads) (.ok value :: results) stop
  | refused {offset stop : Nat} {r : Read} {reads : List Read}
      {results : List (Except OutOfBounds Datum)} (hfound : ¬ r.FoundAt bytes offset)
      (hrest : Runs order bytes offset reads results stop) :
      Runs order bytes offset (r :: reads) (.error (r.shortage bytes offset) :: results) stop

section Run

variable {order : ByteOrder} {bytes : List UInt8} {offset stop : Nat} {reads : List Read}
  {results : List (Except OutOfBounds Datum)}

theorem attempt_of_foundAt (order : ByteOrder) {r : Read} (h : r.FoundAt bytes offset) :
    ∃ piece value, StandsAt bytes offset piece ∧ r.Takes order piece value ∧
      r.reader.attempt (.ofBytes order bytes offset) =
        (.ok value, .ofBytes order bytes (offset + piece.length)) := by
  obtain ⟨piece, value, hpiece, htakes, hread⟩ := reader_of_foundAt order h
  exact ⟨piece, value, hpiece, htakes, by rw [Reader.attempt, hread]⟩

theorem attempt_of_not_foundAt (order : ByteOrder) {r : Read} (h : ¬ r.FoundAt bytes offset) :
    r.reader.attempt (.ofBytes order bytes offset) =
      (.error (r.shortage bytes offset), .ofBytes order bytes offset) := by
  rw [Reader.attempt, reader_of_not_foundAt order h]

theorem run_cons_of_attempt {r : Read} {c c' c'' : Cursor} {result : Except OutOfBounds Datum}
    (h : r.reader.attempt c = (result, c')) (hrest : run reads c' = (results, c'')) :
    run (r :: reads) c = (result :: results, c'') := by
  rw [run, h, hrest]

theorem exists_runs (order : ByteOrder) (bytes : List UInt8) : ∀ (reads : List Read) (offset : Nat),
    ∃ results stop, run reads (.ofBytes order bytes offset) =
        (results, .ofBytes order bytes stop) ∧ Runs order bytes offset reads results stop
  | [], offset => ⟨[], offset, rfl, .nil⟩
  | r :: reads, offset => by
      by_cases hfound : r.FoundAt bytes offset
      · obtain ⟨piece, value, hpiece, htakes, hread⟩ := attempt_of_foundAt order hfound
        obtain ⟨results, stop, hrun, hruns⟩ := exists_runs order bytes reads (offset + piece.length)
        exact ⟨_, stop, run_cons_of_attempt hread hrun, .taken hfound hpiece htakes hruns⟩
      · obtain ⟨results, stop, hrun, hruns⟩ := exists_runs order bytes reads offset
        have hrefused := attempt_of_not_foundAt order hfound
        exact ⟨_, stop, run_cons_of_attempt hrefused hrun, .refused hfound hruns⟩

/-- A run within the bytes stays within them. -/
theorem Runs.stop_le (h : Runs order bytes offset reads results stop)
    (hoffset : offset ≤ bytes.length) : stop ≤ bytes.length := by
  induction h with
  | nil => exact hoffset
  | taken _ hpiece _ _ ih => exact ih hpiece.add_length_le
  | refused _ _ ih => exact ih hoffset

/-- The reads that succeed, with what they yield. -/
def successes : List Read → List (Except OutOfBounds Datum) → List (Read × Datum)
  | r :: reads, .ok value :: results => (r, value) :: successes reads results
  | _ :: reads, .error _ :: results => successes reads results
  | _, _ => []

/-- A piece of the bytes where a read succeeds. -/
def Piece (order : ByteOrder) (bytes : List UInt8) : Format (Read × Datum) :=
  fun offset piece x => StandsAt bytes offset piece ∧ x.1.Takes order piece x.2

theorem Runs.exists_tiles (h : Runs order bytes offset reads results stop) :
    ∃ p, stop = offset + p.length ∧
      Tiles (Piece order bytes) offset p (successes reads results) := by
  induction h with
  | nil => exact ⟨[], rfl, .nil⟩
  | taken _ hpiece htakes _ ih =>
      obtain ⟨p, hstop, htiles⟩ := ih
      refine ⟨_ ++ p, ?_, .cons ⟨hpiece, htakes⟩ htiles⟩
      rw [hstop, List.length_append, Nat.add_assoc]
  | refused _ _ ih => exact ih

/-- Whatever the reads are and wherever they start, each takes exactly the bytes it needs or
fails without moving.  So a run never leaves the bytes, and what it takes of them lies end to
end. -/
theorem run_atomic (order : ByteOrder) (bytes : List UInt8) (offset : Nat) (reads : List Read) :
    ∃ results stop,
      run reads (.ofBytes order bytes offset) = (results, .ofBytes order bytes stop) ∧
      Runs order bytes offset reads results stop ∧
      (offset ≤ bytes.length → stop ≤ bytes.length) ∧
      ∃ p, stop = offset + p.length ∧
        Tiles (Piece order bytes) offset p (successes reads results) := by
  obtain ⟨results, stop, hrun, hruns⟩ := exists_runs order bytes reads offset
  exact ⟨results, stop, hrun, hruns, hruns.stop_le, hruns.exists_tiles⟩

theorem run_atomic_threeBytes : 0 ≤ [1, 2, 3].length ∧ ∃ results stop,
    run [.word, .half, .block 2, .string] (.ofBytes .little [1, 2, 3] 0) =
        (results, .ofBytes .little [1, 2, 3] stop) ∧
      Runs .little [1, 2, 3] 0 [.word, .half, .block 2, .string] results stop ∧ stop ≤ 3 := by
  obtain ⟨results, stop, hrun, hruns, hstop, -⟩ :=
    run_atomic .little [1, 2, 3] 0 [.word, .half, .block 2, .string]
  exact ⟨Nat.zero_le _, results, stop, hrun, hruns, hstop (Nat.zero_le _)⟩

-- a failed read does not get in the way of the next
example : (run [.word, .half, .block 2, .string, .block 1] (.ofBytes .little [1, 2, 3] 0)).1 =
    [.error ⟨0, 4⟩, .ok (.half 0x0201), .error ⟨2, 2⟩, .error ⟨2, 2⟩, .ok (.block [3])] := by
  rfl

end Run

end Read
end DwarfOne
