/-
# `Proofs.LineTable` — the tables of a line section

A section is read exactly if it is one table after another, each as long as its first word
says, up to fewer than four bytes at the end.  `Piece` is such a table as it lies in the
section; what is read from it is said with the places of the numbers in the whole section.

A table that cannot be taken is the first one whose length is below eight or reaches past the
end.  Nothing else can go wrong: within a table every read has been provided for by the length
of the table, so that no read is ever short of bytes.
-/
import DwarfOne.LineTable
import DwarfOne.Proofs.Bytes.Failure
import DwarfOne.Proofs.Record.Encoding

namespace DwarfOne

open Reader

/-! ## Numbers by their places -/

/-- The number in so many bytes at a place. -/
def ByteOrder.numberIn (order : ByteOrder) (bytes : List UInt8) (place width : Nat) : Nat :=
  order.value ((bytes.drop place).take width)

namespace ByteOrder

variable {order : ByteOrder} {p : List UInt8} {place width : Nat}

theorem numberIn_lt (order : ByteOrder) (p : List UInt8) (place width : Nat) :
    order.numberIn p place width < 256 ^ width := by
  refine Nat.lt_of_lt_of_le (order.value_lt _) (Nat.pow_le_pow_right (by decide) ?_)
  rw [List.length_take]
  exact Nat.min_le_left _ _

theorem numberIn_drop (n : Nat) :
    order.numberIn (p.drop n) place width = order.numberIn p (n + place) width := by
  rw [numberIn, numberIn, List.drop_drop]

theorem numberIn_take {n : Nat} (h : place + width ≤ n) :
    order.numberIn (p.take n) place width = order.numberIn p place width := by
  have hleft : min width (n - place) = width := by omega
  rw [numberIn, numberIn, List.drop_take, List.take_take, hleft]

theorem numberIn_append (a b : List UInt8) (h : place + width ≤ p.length) :
    order.numberIn (a ++ (p ++ b)) (a.length + place) width = order.numberIn p place width := by
  rw [← numberIn_drop, List.drop_left, ← numberIn_take h, List.take_left]

end ByteOrder

/-! ## Entries -/

namespace LineEntry

/-- An entry as it lies at a place of a section, in a table whose code starts at an address. -/
structure At (order : ByteOrder) (start : UInt32) (bytes : List UInt8) (place : Nat)
    (e : LineEntry) : Prop where
  line : e.line.toNat = order.numberIn bytes place 4
  position_eq_none_iff : e.position = none ↔ order.numberIn bytes (place + 4) 2 = 0xffff
  position_eq_some : ∀ x, e.position = some x → x.toNat = order.numberIn bytes (place + 4) 2
  address : e.address.toNat = (start.toNat + order.numberIn bytes (place + 6) 4) % 2 ^ 32

/-- The entry that the ten bytes at a place hold. -/
def ofBytes (order : ByteOrder) (start : UInt32) (bytes : List UInt8) (place : Nat) :
    LineEntry where
  line := .ofNat (order.numberIn bytes place 4)
  position :=
    if UInt16.ofNat (order.numberIn bytes (place + 4) 2) = 0xffff then none
    else some (.ofNat (order.numberIn bytes (place + 4) 2))
  address := start + .ofNat (order.numberIn bytes (place + 6) 4)

variable {order : ByteOrder} {start : UInt32} {p : List UInt8} {place : Nat} {c : Cursor}

theorem at_ofBytes (order : ByteOrder) (start : UInt32) (bytes : List UInt8) (place : Nat) :
    At order start bytes place (ofBytes order start bytes place) := by
  have hhalf : (UInt16.ofNat (order.numberIn bytes (place + 4) 2)).toNat =
      order.numberIn bytes (place + 4) 2 :=
    UInt16.toNat_ofNat_of_lt' (order.numberIn_lt bytes (place + 4) 2)
  constructor
  case line => exact UInt32.toNat_ofNat_of_lt' (order.numberIn_lt bytes place 4)
  case position_eq_none_iff =>
      have hsentinel : UInt16.ofNat (order.numberIn bytes (place + 4) 2) = 0xffff ↔
          order.numberIn bytes (place + 4) 2 = 0xffff := by
        rw [← UInt16.toNat_inj, hhalf]
        rfl
      simp only [ofBytes, ite_eq_left_iff, reduceCtorEq, imp_false, Decidable.not_not]
      exact hsentinel
  case position_eq_some =>
      intro x hx
      simp only [ofBytes] at hx
      split at hx
      · cases hx
      · cases hx
        exact hhalf
  case address =>
      rw [ofBytes, UInt32.toNat_add,
        UInt32.toNat_ofNat_of_lt' (order.numberIn_lt bytes (place + 6) 4)]

theorem ofBytes_drop (n : Nat) :
    ofBytes order start (p.drop n) place = ofBytes order start p (n + place) := by
  simp only [ofBytes, ByteOrder.numberIn_drop, Nat.add_assoc]

theorem ofBytes_take {n : Nat} (h : place + 10 ≤ n) :
    ofBytes order start (p.take n) place = ofBytes order start p place := by
  rw [ofBytes, ByteOrder.numberIn_take (by omega), ByteOrder.numberIn_take (by omega),
    ByteOrder.numberIn_take (by omega), ofBytes]

theorem ofBytes_append (a b : List UInt8) (h : place + 10 ≤ p.length) :
    ofBytes order start (a ++ (p ++ b)) (a.length + place) = ofBytes order start p place := by
  rw [← ofBytes_drop, List.drop_left, ← ofBytes_take h, List.take_left]

/-- Ten bytes are always enough. -/
theorem read_of_le (hw : c.Within) (h : 10 ≤ c.unread.length) :
    read start c = .ok (ofBytes c.order start c.unread 0) (c.advance 10) := by
  have hline := Frame.word_of_le hw (by omega)
  have hposition := Frame.half_of_le (hw.advance_of_le (n := 4) (by omega))
    (by rw [Cursor.unread_advance, List.length_drop]; omega)
  have hdelta := Frame.word_of_le (hw.advance_of_le (n := 6) (by omega))
    (by rw [Cursor.unread_advance, List.length_drop]; omega)
  rw [read, bind_of_ok (Frame.liftM_of_ok hline), bind_of_ok (Frame.liftM_of_ok hposition),
    Cursor.advance_advance, bind_of_ok (Frame.liftM_of_ok hdelta), Cursor.advance_advance]
  rfl

/-- One more entry, as long as ten bytes are left. -/
def next? (start : UInt32) : Reader DebugError (Option LineEntry) := do
  if (← get).remaining < 10 then return none
  return some (← read start)

theorem next?_eq (hw : c.Within) : next? start c =
    if c.unread.length < 10 then .ok none c
    else .ok (some (ofBytes c.order start c.unread 0)) (c.advance 10) := by
  show (if c.remaining < 10 then pure none else read start >>= fun e => pure (some e) :
    Reader DebugError (Option LineEntry)) c = _
  rw [c.remaining_eq]
  split
  case isTrue h => rfl
  case isFalse h =>
      rw [bind_of_ok (read_of_le hw (Nat.le_of_not_lt h))]
      rfl

theorem acceptsUntil_next? (start : UInt32) : AcceptsUntil (next? start) order 10
    (fun _ p e => p.length = 10 ∧ e = ofBytes order start p 0) := by
  constructor
  case none_iff =>
      intro c hc hw c'
      rw [next?_eq hw]
      split
      case isTrue h => simp [h, eq_comm]
      case isFalse h => simp [h]
  case some_iff =>
      intro c hc hw e c'
      rw [next?_eq hw, hc]
      split
      case isTrue h =>
          constructor
          · intro hok
            cases hok
          · rintro ⟨p, hp, ⟨hlength, -⟩, -⟩
            have := hp.length_le
            omega
      case isFalse h =>
          have hlength : (c.unread.take 10).length = 10 := by
            rw [List.length_take]
            omega
          constructor
          · intro hok
            cases hok
            exact ⟨c.unread.take 10, List.take_prefix _ _,
              ⟨hlength, (ofBytes_take (by omega)).symm⟩, by rw [hlength]⟩
          · rintro ⟨p, hp, ⟨hp10, rfl⟩, rfl⟩
            rw [List.prefix_iff_eq_take.mp hp, hp10, ofBytes_take (by omega), hlength]
  case ne_nil =>
      rintro offset p e ⟨hlength, -⟩ rfl
      cases hlength

end LineEntry

/-- Bytes cut into parts of one width. -/
theorem tiles_map_range {α : Type} (f : List UInt8 → α) (width : Nat) :
    ∀ (n offset : Nat) (p : List UInt8), p.length = width * n →
      Tiles (fun _ q a => q.length = width ∧ a = f q) offset p
        ((List.range n).map fun j => f ((p.drop (width * j)).take width))
  | 0, offset, p, h => by
      rw [List.length_eq_zero_iff.mp h]
      exact .nil
  | n + 1, offset, p, h => by
      rw [Nat.mul_succ] at h
      have hhead : (p.take width).length = width := by
        rw [List.length_take]
        omega
      have htail := tiles_map_range f width n (offset + (p.take width).length) (p.drop width)
        (by rw [List.length_drop]; omega)
      have hshift : ∀ j, (p.drop width).drop (width * j) = p.drop (width * (j + 1)) := by
        intro j
        rw [List.drop_drop, Nat.mul_succ, Nat.add_comm]
      simp only [hshift] at htail
      have hcons : Tiles (fun _ q a => q.length = width ∧ a = f q) offset
          (p.take width ++ p.drop width) (f (p.take width) ::
            (List.range n).map fun j => f ((p.drop (width * (j + 1))).take width)) :=
        .cons ⟨hhead, rfl⟩ htail
      rw [List.take_append_drop] at hcons
      rw [List.range_succ_eq_map, List.map_cons, List.map_map]
      exact hcons

/-! ## Tables -/

namespace LineTable

variable {order : ByteOrder} {c : Cursor}

/-- The table in some bytes that lie at an offset. -/
def ofBytes (order : ByteOrder) (offset : Nat) (p : List UInt8) : LineTable where
  offset := .ofNat offset
  start := .ofNat (order.numberIn p 4 4)
  entries := (List.range ((p.length - 8) / 10)).map fun j =>
    LineEntry.ofBytes order (.ofNat (order.numberIn p 4 4)) p (8 + 10 * j)

theorem collect_next? (hw : c.Within) (start : UInt32) :
    ∃ c', collect (LineEntry.next? start) c = .ok
      ((List.range (c.unread.length / 10)).map fun j =>
        LineEntry.ofBytes c.order start c.unread (10 * j)) c' := by
  have hlength : (c.unread.take (10 * (c.unread.length / 10))).length =
      10 * (c.unread.length / 10) := by
    rw [List.length_take]
    omega
  refine ⟨_, ((LineEntry.acceptsUntil_next? start).collect_eq_ok_iff rfl hw).mpr
    ⟨_, List.take_prefix (10 * (c.unread.length / 10)) c.unread, ?_, rfl, ?_⟩⟩
  · have htiles := tiles_map_range (fun q => LineEntry.ofBytes c.order start q 0) 10
      (c.unread.length / 10) c.offset _ hlength
    convert htiles using 1
    refine List.map_congr_left fun j hj => ?_
    have hj := List.mem_range.mp hj
    rw [LineEntry.ofBytes_take (Nat.le_refl _), LineEntry.ofBytes_drop,
      LineEntry.ofBytes_take (by omega), Nat.add_zero]
  · rw [hlength, Cursor.unread_advance, List.length_drop]
    omega

/-- What follows the length of a table can always be read. -/
theorem readBody_of_drop (hw : c.Within) {p : List UInt8} (hp : c.unread = p.drop 4)
    (height : 8 ≤ p.length) (offset : Nat) :
    (readBody offset).on c = .ok (ofBytes c.order offset p) := by
  have hlength : c.unread.length = p.length - 4 := by rw [hp, List.length_drop]
  have hfield : Frame.lengthField c.order c.unread = .ofNat (c.order.numberIn p 4 4) := by
    rw [Frame.lengthField, hp]
    rfl
  have hbody : (c.advance 4).unread = p.drop 8 := by
    rw [Cursor.unread_advance, hp, List.drop_drop]
  have hstart := Frame.liftM_of_ok (Frame.word_of_le hw (by omega))
  obtain ⟨c', hentries⟩ := collect_next? (hw.advance_of_le (n := 4) (by omega))
    (.ofNat (c.order.numberIn p 4 4))
  rw [on_eq_ok_iff]
  refine ⟨c', ?_⟩
  rw [readBody, bind_of_ok hstart, hfield]
  show (collect (LineEntry.next? _) >>= _) _ = _
  rw [bind_of_ok hentries, hbody, List.length_drop]
  simp only [LineEntry.ofBytes_drop, Cursor.order_advance]
  rfl

/-- The table ahead is cut off from what follows it. -/
theorem readBody_limit (hw : c.Within) {length : Nat} (height : 8 ≤ length)
    (hfits : length ≤ c.unread.length) :
    (readBody c.offset).on ((c.advance 4).limit (length - 4)) =
      .ok (ofBytes c.order c.offset (c.unread.take length)) := by
  have hadvance : (c.advance 4).Within := hw.advance_of_le (by omega)
  refine readBody_of_drop ?_ ?_ ?_ c.offset
  · exact Nat.le_min.mpr ⟨Nat.le_add_right _ _, hadvance⟩
  · exact (List.drop_take ..).symm
  · rwa [List.length_take_of_le hfits]

/-- Everything `read?` can do. -/
theorem read?_eq (hw : c.Within) : read? c =
    if c.unread.length < 4 then .ok none c
    else if c.order.numberIn c.unread 0 4 < 8 ∨
        c.unread.length < c.order.numberIn c.unread 0 4 then
      .error (.badLineTable c.offset (.ofNat (c.order.numberIn c.unread 0 4))) (c.advance 4)
    else .ok (some (ofBytes c.order c.offset (c.unread.take (c.order.numberIn c.unread 0 4))))
      (c.advance (c.order.numberIn c.unread 0 4)) := by
  have hlength : (Frame.lengthField c.order c.unread).toNat = c.order.numberIn c.unread 0 4 :=
    UInt32.toNat_ofNat_of_lt' (c.order.numberIn_lt c.unread 0 4)
  show (if c.remaining < 4 then pure none else _ : Reader DebugError (Option LineTable)) c = _
  rw [c.remaining_eq]
  split
  case isTrue h => rfl
  case isFalse h =>
      rw [bind_of_ok (Frame.liftM_of_ok (Frame.word_of_le hw (Nat.le_of_not_lt h)))]
      have hbad : Frame.lengthField c.order c.unread < 8 ∨
            c.unread.length < (Frame.lengthField c.order c.unread).toNat ↔
          c.order.numberIn c.unread 0 4 < 8 ∨
            c.unread.length < c.order.numberIn c.unread 0 4 := by
        rw [UInt32.lt_iff_toNat_lt, hlength]
        rfl
      by_cases hfail : c.order.numberIn c.unread 0 4 < 8 ∨
          c.unread.length < c.order.numberIn c.unread 0 4
      · rw [if_pos (hbad.mpr hfail), if_pos hfail]
        rfl
      · rw [if_neg fun h => hfail (hbad.mp h), if_neg hfail, hlength]
        have hget : (get : Reader DebugError Cursor) (c.advance 4) =
            .ok (c.advance 4) (c.advance 4) := rfl
        rw [bind_of_ok hget, readBody_limit hw (by omega) (by omega)]
        rfl

/-- A table as it lies in a section: its first word counts all its bytes. -/
structure Piece (order : ByteOrder) where
  bytes : List UInt8
  eight_le : 8 ≤ bytes.length
  length_eq : order.numberIn bytes 0 4 = bytes.length

/-- No table can be taken from the start of these bytes, though they have a first word. -/
structure Broken (order : ByteOrder) (bytes : List UInt8) : Prop where
  four_le : 4 ≤ bytes.length
  bad : order.numberIn bytes 0 4 < 8 ∨ bytes.length < order.numberIn bytes 0 4

def Spans (order : ByteOrder) : Format LineTable := fun offset p t =>
  ∃ piece : Piece order, piece.bytes = p ∧ t = ofBytes order offset p

theorem read?_on_eq_error_iff (hw : c.Within) {e : DebugError} : read?.on c = .error e ↔
    Broken c.order c.unread ∧
      e = .badLineTable c.offset (.ofNat (c.order.numberIn c.unread 0 4)) := by
  rw [on_eq_error_iff, read?_eq hw]
  split
  case isTrue hshort =>
      constructor
      · rintro ⟨c', h⟩
        cases h
      · rintro ⟨hbroken, -⟩
        exact absurd hbroken.four_le (Nat.not_le_of_lt hshort)
  case isFalse hshort =>
      split
      case isTrue hbad =>
          constructor
          · rintro ⟨c', h⟩
            cases h
            exact ⟨⟨Nat.le_of_not_lt hshort, hbad⟩, rfl⟩
          · rintro ⟨-, rfl⟩
            exact ⟨_, rfl⟩
      case isFalse hbad =>
          constructor
          · rintro ⟨c', h⟩
            cases h
          · rintro ⟨hbroken, -⟩
            exact absurd hbroken.bad hbad

theorem acceptsUntil_read? : AcceptsUntil read? order 4 (Spans order) := by
  constructor
  case none_iff =>
      intro c hc hw c'
      rw [read?_eq hw]
      split
      case isTrue h => simp [h, eq_comm]
      case isFalse h =>
          split
          · simp [h]
          · simp [h]
  case some_iff =>
      intro c hc hw t c'
      subst hc
      rw [read?_eq hw]
      constructor
      · intro hok
        split at hok
        case isTrue h => cases hok
        case isFalse h =>
            split at hok
            case isTrue hbad => cases hok
            case isFalse hbad =>
                cases hok
                have hlength : (c.unread.take (c.order.numberIn c.unread 0 4)).length =
                    c.order.numberIn c.unread 0 4 := by
                  rw [List.length_take]
                  omega
                refine ⟨_, List.take_prefix _ _, ⟨⟨_, ?_, ?_⟩, rfl, rfl⟩, by rw [hlength]⟩
                · rw [hlength]
                  omega
                · rw [hlength, ByteOrder.numberIn_take (by omega)]
      · rintro ⟨_, ⟨rest, hrest⟩, ⟨piece, rfl, rfl⟩, rfl⟩
        have height := piece.eight_le
        have hfour : 0 + 4 ≤ piece.bytes.length := by omega
        have hcount : c.order.numberIn c.unread 0 4 = piece.bytes.length := by
          rw [← hrest, ← piece.length_eq]
          exact ByteOrder.numberIn_append [] rest hfour
        have hfits : piece.bytes.length ≤ c.unread.length := by
          rw [← hrest, List.length_append]
          omega
        rw [hcount, if_neg (by omega), if_neg (by omega), ← hrest, List.take_left]
  case ne_nil =>
      rintro offset p t ⟨piece, rfl, -⟩ hnil
      have height := piece.eight_le
      rw [hnil] at height
      cases height

/-! ## Sections -/

/-- The tables of pieces that lie one after another from an offset on. -/
def placed (offset : Nat) (pieces : List (Piece order)) : List LineTable :=
  placeFrom (fun piece : Piece order => piece.bytes.length)
    (fun offset piece => ofBytes order offset piece.bytes) offset pieces

theorem tiles_spans_iff {offset : Nat} {p : List UInt8} {tables : List LineTable} :
    Tiles (Spans order) offset p tables ↔
      ∃ pieces : List (Piece order), p = pieces.flatMap Piece.bytes ∧
        tables = placed offset pieces := by
  constructor
  · intro h
    induction h with
    | nil => exact ⟨[], rfl, rfl⟩
    | cons hspans _ ih =>
        obtain ⟨piece, rfl, rfl⟩ := hspans
        obtain ⟨pieces, rfl, rfl⟩ := ih
        exact ⟨piece :: pieces, rfl, rfl⟩
  · rintro ⟨pieces, rfl, rfl⟩
    exact tiles_placeFrom (fun _ => rfl) (fun _ piece => ⟨piece, rfl, rfl⟩) offset pieces

theorem decodeAll_eq_ok_iff {bytes : List UInt8} {tables : List LineTable} :
    decodeAll order bytes = .ok tables ↔
      ∃ (pieces : List (Piece order)) (rest : List UInt8),
        bytes = pieces.flatMap Piece.bytes ++ rest ∧ rest.length < 4 ∧
          tables = placed 0 pieces := by
  have hw : (Cursor.ofBytes order bytes 0).Within := Nat.zero_le _
  rw [decodeAll, acceptsUntil_read?.collect_on_eq_ok_iff rfl hw]
  constructor
  · rintro ⟨p, rest, hbytes, hrest, htiles⟩
    obtain ⟨pieces, rfl, rfl⟩ := tiles_spans_iff.mp htiles
    exact ⟨pieces, rest, hbytes, hrest, rfl⟩
  · rintro ⟨pieces, rest, hbytes, hrest, rfl⟩
    exact ⟨_, rest, hbytes, hrest, tiles_spans_iff.mpr ⟨pieces, rfl, rfl⟩⟩

theorem decodeAll_eq_error_iff {bytes : List UInt8} {e : DebugError} :
    decodeAll order bytes = .error e ↔
      ∃ (pieces : List (Piece order)) (rest : List UInt8),
        bytes = pieces.flatMap Piece.bytes ++ rest ∧ Broken order rest ∧
          e = .badLineTable (pieces.flatMap Piece.bytes).length
            (.ofNat (order.numberIn rest 0 4)) := by
  have hw : (Cursor.ofBytes order bytes 0).Within := Nat.zero_le _
  -- after the pieces the cursor sees the rest, and its offset is what they take
  have hafter : ∀ p rest, p ++ rest = bytes →
      (read?.on ((Cursor.ofBytes order bytes 0).advance p.length) = .error e ↔
        Broken order rest ∧
          e = .badLineTable p.length (.ofNat (order.numberIn rest 0 4))) := by
    intro p rest hbytes
    have hunread : ((Cursor.ofBytes order bytes 0).advance p.length).unread = rest := by
      rw [← hbytes]
      exact List.drop_left
    have hoffset : ((Cursor.ofBytes order bytes 0).advance p.length).offset = p.length :=
      Nat.zero_add _
    rw [read?_on_eq_error_iff (hw.advance ⟨rest, hbytes⟩), hunread, hoffset]
    rfl
  rw [decodeAll, acceptsUntil_read?.collect_on_eq_error_iff rfl hw]
  constructor
  · rintro ⟨p, tables, ⟨rest, hbytes⟩, htiles, hfail⟩
    obtain ⟨hbroken, he⟩ := (hafter p rest hbytes).mp hfail
    obtain ⟨pieces, rfl, -⟩ := tiles_spans_iff.mp htiles
    exact ⟨pieces, rest, hbytes.symm, hbroken, he⟩
  · rintro ⟨pieces, rest, hbytes, hbroken, he⟩
    exact ⟨_, _, ⟨rest, hbytes.symm⟩, tiles_spans_iff.mpr ⟨pieces, rfl, rfl⟩,
      (hafter _ rest hbytes.symm).mpr ⟨hbroken, he⟩⟩

/-! ## What is read -/

/-- A table said with the places of its numbers in the section. -/
structure Describes (order : ByteOrder) (bytes : List UInt8) (offset length : Nat)
    (t : LineTable) : Prop where
  offset_eq : t.offset.toNat = offset
  start_eq : t.start.toNat = order.numberIn bytes (offset + 4) 4
  length_entries : t.entries.length = (length - 8) / 10
  entry : ∀ j e, t.entries[j]? = some e →
    LineEntry.At order t.start bytes (offset + 8 + 10 * j) e

theorem describes_ofBytes (before : List UInt8) (piece : Piece order) (after : List UInt8)
    (hsize : before.length < 2 ^ 32) :
    Describes order (before ++ (piece.bytes ++ after)) before.length piece.bytes.length
      (ofBytes order before.length piece.bytes) := by
  have height := piece.eight_le
  constructor
  case offset_eq => exact UInt32.toNat_ofNat_of_lt' hsize
  case start_eq =>
      rw [ByteOrder.numberIn_append before after (by omega)]
      exact UInt32.toNat_ofNat_of_lt' (order.numberIn_lt piece.bytes 4 4)
  case length_entries => rw [ofBytes, List.length_map, List.length_range]
  case entry =>
      intro j e he
      rw [ofBytes, List.getElem?_map, Option.map_eq_some_iff] at he
      obtain ⟨j, hj, rfl⟩ := he
      obtain ⟨hlt, rfl⟩ := List.getElem?_eq_some_iff.mp hj
      rw [List.length_range] at hlt
      rw [List.getElem_range, ← LineEntry.ofBytes_append before after (by omega), Nat.add_assoc]
      exact LineEntry.at_ofBytes order _ _ _

/-- Where a piece lies in its section. -/
def offsetOf (pieces : List (Piece order)) (i : Nat) : Nat :=
  ((pieces.take i).flatMap Piece.bytes).length

section Placed

variable {bytes rest : List UInt8} {pieces : List (Piece order)}

theorem length_placed (offset : Nat) : (placed offset pieces).length = pieces.length :=
  length_placeFrom pieces offset

theorem getElem?_placed {i : Nat} {piece : Piece order} (h : pieces[i]? = some piece) :
    (placed 0 pieces)[i]? = some (ofBytes order (offsetOf pieces i) piece.bytes) := by
  obtain ⟨hi, rfl⟩ := List.getElem?_eq_some_iff.mp h
  have htake : (pieces.take i).length = i := List.length_take_of_le (Nat.le_of_lt hi)
  have hplace : (placed 0 (pieces.take i ++ pieces.drop i))[(pieces.take i).length]? =
      (pieces.drop i).head?.map fun piece =>
        ofBytes order (0 + ((pieces.take i).map fun piece => piece.bytes.length).sum)
          piece.bytes :=
    getElem?_placeFrom_append (pieces.take i) (pieces.drop i) 0
  rw [List.take_append_drop, htake, List.head?_drop, h, Option.map_some, Nat.zero_add] at hplace
  rw [offsetOf, length_flatMap_encode fun _ => rfl]
  exact hplace

theorem describes_of_getElem? (hbytes : bytes = pieces.flatMap Piece.bytes ++ rest)
    (hsize : bytes.length < 2 ^ 32) {i : Nat} {piece : Piece order}
    (h : pieces[i]? = some piece) :
    ∃ t, (placed 0 pieces)[i]? = some t ∧
      Describes order bytes (offsetOf pieces i) piece.bytes.length t := by
  refine ⟨_, getElem?_placed h, ?_⟩
  obtain ⟨hi, rfl⟩ := List.getElem?_eq_some_iff.mp h
  have hsplit : bytes = (pieces.take i).flatMap Piece.bytes ++ (pieces[i].bytes ++
      ((pieces.drop (i + 1)).flatMap Piece.bytes ++ rest)) := by
    rw [hbytes, ← List.append_assoc pieces[i].bytes, ← List.flatMap_cons,
      ← List.drop_eq_getElem_cons hi, ← List.append_assoc, ← List.flatMap_append,
      List.take_append_drop]
  have hbefore : offsetOf pieces i < 2 ^ 32 := by
    rw [hsplit, List.length_append] at hsize
    exact Nat.lt_of_le_of_lt (Nat.le_add_right _ _) hsize
  rw [hsplit]
  exact describes_ofBytes _ pieces[i] _ hbefore

/-- Each table lies behind those before it. -/
theorem increasing_placed : ∀ (pieces : List (Piece order)) (offset : Nat),
    offset + (pieces.flatMap Piece.bytes).length < 2 ^ 32 →
      (∀ t ∈ placed offset pieces, offset ≤ t.offset.toNat) ∧
        (placed offset pieces).Pairwise fun t t' => t.offset < t'.offset
  | [], _, _ => ⟨by simp [placed, placeFrom], .nil⟩
  | piece :: pieces, offset, hsize => by
      rw [List.flatMap_cons, List.length_append] at hsize
      have height := piece.eight_le
      have hoffset : (UInt32.ofNat offset).toNat = offset :=
        UInt32.toNat_ofNat_of_lt' (Nat.lt_of_le_of_lt (Nat.le_add_right _ _) hsize)
      obtain ⟨hbehind, hpairwise⟩ :=
        increasing_placed pieces (offset + piece.bytes.length) (by omega)
      have hplaced : placed offset (piece :: pieces) =
          ofBytes order offset piece.bytes :: placed (offset + piece.bytes.length) pieces := rfl
      rw [hplaced]
      refine ⟨?_, List.pairwise_cons.mpr ⟨?_, hpairwise⟩⟩
      · intro t ht
        rcases List.mem_cons.mp ht with rfl | ht
        · exact Nat.le_of_eq hoffset.symm
        · exact Nat.le_trans (Nat.le_add_right _ _) (hbehind t ht)
      · intro t ht
        have hlater := hbehind t ht
        rw [UInt32.lt_iff_toNat_lt]
        show (UInt32.ofNat offset).toNat < _
        omega

theorem find?_of_increasing {tables : List LineTable}
    (h : tables.Pairwise fun t t' => t.offset < t'.offset) {t : LineTable} (ht : t ∈ tables) :
    tables.find? (·.offset = t.offset) = some t := by
  obtain ⟨before, after, rfl⟩ := List.append_of_mem ht
  refine List.find?_eq_some_iff_append.mpr ⟨by simp, before, after, rfl, ?_⟩
  intro t' ht'
  have hlt := (List.pairwise_append.mp h).2.2 t' ht' t List.mem_cons_self
  simpa using UInt32.ne_of_lt hlt

end Placed

/-- What comes of a line section. -/
structure Decoded (order : ByteOrder) (bytes : List UInt8) : Prop where
  ok_iff : (∃ tables, decodeAll order bytes = .ok tables) ↔
    ∃ (pieces : List (Piece order)) (rest : List UInt8),
      bytes = pieces.flatMap Piece.bytes ++ rest ∧ rest.length < 4
  /-- One table for each piece. -/
  tables : ∀ (tables : List LineTable) (pieces : List (Piece order)) (rest : List UInt8),
    decodeAll order bytes = .ok tables → bytes = pieces.flatMap Piece.bytes ++ rest →
      rest.length < 4 → tables.length = pieces.length ∧
        ∀ i piece, pieces[i]? = some piece → ∃ t, tables[i]? = some t ∧
          Describes order bytes (offsetOf pieces i) piece.bytes.length t
  /-- A table is found by its offset. -/
  keyed : ∀ tables, decodeAll order bytes = .ok tables → ∀ t ∈ tables,
    tables.find? (·.offset = t.offset) = some t
  /-- The only failure is the first table that cannot be taken. -/
  error_iff : ∀ e, decodeAll order bytes = .error e ↔
    ∃ (pieces : List (Piece order)) (rest : List UInt8) (length : UInt32),
      bytes = pieces.flatMap Piece.bytes ++ rest ∧ Broken order rest ∧
        length.toNat = order.numberIn rest 0 4 ∧
        e = .badLineTable (pieces.flatMap Piece.bytes).length length

/-- A line section is read exactly as it is cut up by the lengths of its tables. -/
theorem decoded_of_length_lt (order : ByteOrder) {bytes : List UInt8}
    (hsize : bytes.length < 2 ^ 32) : Decoded order bytes := by
  constructor
  case ok_iff =>
      constructor
      · rintro ⟨tables, hok⟩
        obtain ⟨pieces, rest, hbytes, hrest, -⟩ := decodeAll_eq_ok_iff.mp hok
        exact ⟨pieces, rest, hbytes, hrest⟩
      · rintro ⟨pieces, rest, hbytes, hrest⟩
        exact ⟨_, decodeAll_eq_ok_iff.mpr ⟨pieces, rest, hbytes, hrest, rfl⟩⟩
  case tables =>
      intro tables pieces rest hok hbytes hrest
      cases hok.symm.trans (decodeAll_eq_ok_iff.mpr ⟨pieces, rest, hbytes, hrest, rfl⟩)
      exact ⟨length_placed 0, fun i piece h => describes_of_getElem? hbytes hsize h⟩
  case keyed =>
      intro tables hok t ht
      obtain ⟨pieces, rest, rfl, -, rfl⟩ := decodeAll_eq_ok_iff.mp hok
      rw [List.length_append] at hsize
      exact find?_of_increasing (increasing_placed pieces 0 (by omega)).2 ht
  case error_iff =>
      intro e
      rw [decodeAll_eq_error_iff]
      constructor
      · rintro ⟨pieces, rest, hbytes, hbroken, rfl⟩
        exact ⟨pieces, rest, _, hbytes, hbroken,
          UInt32.toNat_ofNat_of_lt' (order.numberIn_lt rest 0 4), rfl⟩
      · rintro ⟨pieces, rest, length, hbytes, hbroken, hlength, rfl⟩
        refine ⟨pieces, rest, hbytes, hbroken, ?_⟩
        rw [← hlength, UInt32.ofNat_toNat]

/-- A table with an entry and three bytes that are too few for another, a table without
entries, and two bytes that are too few for a table. -/
def sampleLines : List UInt8 :=
  [0, 0, 0, 21, 0x80, 0, 0x10, 0, 0, 0, 0, 3, 0xff, 0xff, 0, 0, 0, 4, 1, 2, 3,
   0, 0, 0, 8, 0x80, 0, 0x20, 0, 7, 7]

theorem decoded_sampleLines : sampleLines.length < 2 ^ 32 ∧ Decoded .big sampleLines :=
  have hsize : sampleLines.length < 2 ^ 32 := by decide
  ⟨hsize, decoded_of_length_lt .big hsize⟩

example : decodeAll .big sampleLines = .ok
    [{ offset := 0, start := 0x80001000
       entries := [{ line := 3, position := none, address := 0x80001004 }] },
     { offset := 21, start := 0x80002000, entries := [] }] := by
  decide +kernel

end LineTable

end DwarfOne
