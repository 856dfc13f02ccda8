/-
# `Proofs.Payload.Enumerators` — the blocks that list enumerators

An element list is one enumerator after another, each a word and a name up to a zero byte, with
no count in front.  `Spans` is that grammar, and a block is accepted exactly if it is made of
such items (`decodeList_eq_ok_iff`).  There is one way not to be: to go on after some items with
the beginning of another and no more (`decodeList_eq_error_iff`).  Nothing of the list is
returned then.

The name is text only as far as it is UTF-8, so it is texts that come back from what is written.
-/
import DwarfOne.Payload.Enumerator
import DwarfOne.Proofs.Bytes.Failure
import DwarfOne.Proofs.Text.Utf8
import Mathlib.Algebra.Ring.Int.Defs

namespace DwarfOne
namespace Enumerator

open Reader

/-! ## The grammar -/

/-- The bytes of an enumerator: a word and a name that a zero byte closes. -/
inductive Spans (order : ByteOrder) : List UInt8 → Enumerator → Prop
  | mk {word name : List UInt8} (hword : word.length = 4) (hname : 0 ∉ name) :
      Spans order (word ++ (name ++ [0]))
        { name := Utf8.text name, value := (order.value word : Int).bmod (2 ^ 32) }

variable {order : ByteOrder}

theorem Spans.ne_nil {p : List UInt8} {e : Enumerator} (h : Spans order p e) : p ≠ [] := by
  cases h
  simp

/-! ## Reading -/

/-- Four bytes read as a signed number. -/
theorem toInt_value {p : List UInt8} (h : p.length = 4) :
    (UInt32.ofNat (order.value p)).toInt32.toInt = (order.value p : Int).bmod (2 ^ 32) := by
  have hlt : order.value p < 2 ^ 32 := by
    have hvalue := order.value_lt p
    rwa [h] at hvalue
  show (UInt32.ofNat (order.value p)).toBitVec.toInt = _
  rw [BitVec.toInt_eq_toNat_bmod]
  show ((UInt32.ofNat (order.value p)).toNat : Int).bmod _ = _
  rw [UInt32.toNat_ofNat_of_lt' hlt]

theorem accepts_int : Reader.int.Accepts order fun _ p n =>
    p.length = 4 ∧ n = (order.value p : Int).bmod (2 ^ 32) := by
  refine ((accepts_word 4 UInt32.ofNat).map _).congr fun _ p n => ?_
  constructor
  · rintro ⟨w, ⟨hlength, rfl⟩, rfl⟩
    exact ⟨hlength, toInt_value hlength⟩
  · rintro ⟨hlength, hn⟩
    exact ⟨_, ⟨hlength, rfl⟩, (toInt_value hlength).trans hn.symm⟩

theorem accepts_read : read.Accepts order fun _ => Spans order := by
  refine ((accepts_int.mapError PayloadError.truncated).bind fun value =>
    (accepts_string.mapError PayloadError.truncated).bind fun name =>
      accepts_pure ({ name, value } : Enumerator)).congr fun _ p e => ?_
  constructor
  · rintro ⟨word, _, value, rfl, ⟨hword, hvalue⟩, _, _, _, rfl, ⟨name, rfl, hname, rfl⟩, rfl, rfl⟩
    rw [List.append_nil, hvalue]
    exact .mk hword hname
  · intro h
    cases h with
    | @mk word name hword hname =>
        refine ⟨word, name ++ [0], _, rfl, ⟨hword, rfl⟩, ?_⟩
        exact ⟨name ++ [0], [], _, (List.append_nil _).symm, ⟨name, rfl, hname, rfl⟩, rfl, rfl⟩

theorem decodeList_eq_ok_iff {block : List UInt8} {es : List Enumerator} :
    decodeList order block = .ok es ↔
      ∃ items, block = items.flatten ∧ List.Forall₂ (Spans order) items es := by
  have hread : decodeList order block = .ok es ↔ Tiles (fun _ => Spans order) 0 block es :=
    accepts_read.toEnd_on_eq_ok_iff Spans.ne_nil rfl (Nat.zero_le _)
  rw [hread]
  exact tiles_iff_forall₂

/-! ## Items cut short -/

/-- Bytes that some more would make an enumerator. -/
def CutShort (order : ByteOrder) (p : List UInt8) : Prop :=
  p ≠ [] ∧ ∃ q e, q ≠ [] ∧ Spans order (p ++ q) e

/-- What is missing where an enumerator is cut short: bytes of the word, or the end of the name. -/
def shortage (offset : Nat) (p : List UInt8) : OutOfBounds :=
  if p.length < 4 then ⟨offset, 4⟩ else ⟨offset + 4, (p.drop 4).length + 1⟩

theorem cutShort_iff {p : List UInt8} :
    CutShort order p ↔ p ≠ [] ∧ (p.length < 4 ∨ 0 ∉ p.drop 4) := by
  constructor
  · rintro ⟨hne, q, e, hq, hspans⟩
    refine ⟨hne, or_iff_not_imp_left.mpr fun hlength hzero => ?_⟩
    generalize hwhole : p ++ q = whole at hspans
    cases hspans with
    | @mk word name hword hname =>
        have hrest : p.drop 4 ++ q = name ++ [0] := by
          have hdrop := congrArg (List.drop 4) hwhole
          rwa [List.drop_append_of_le_length (by omega), List.drop_left' hword] at hdrop
        -- the last byte of the item is the zero that closes it, and it is not in `p`
        obtain ⟨q', b, rfl⟩ := (List.eq_nil_or_concat' q).resolve_left hq
        rw [← List.append_assoc] at hrest
        obtain ⟨hname', -⟩ := List.append_inj' hrest rfl
        exact hname (hname' ▸ List.mem_append_left _ hzero)
  · rintro ⟨hne, hcut⟩
    refine ⟨hne, ?_⟩
    by_cases hlength : p.length < 4
    · have hword : (p ++ List.replicate (4 - p.length) 0).length = 4 := by
        rw [List.length_append, List.length_replicate]
        omega
      have hspans : Spans order _ _ := .mk hword List.not_mem_nil
      rw [List.append_assoc] at hspans
      exact ⟨_, _, by simp, hspans⟩
    · have hword : (p.take 4).length = 4 := List.length_take_of_le (by omega)
      have hspans : Spans order _ _ := .mk hword (hcut.resolve_left hlength)
      rw [← List.append_assoc, List.take_append_drop] at hspans
      exact ⟨_, _, by simp, hspans⟩

theorem int_of_le {c : Cursor} (h : c.offset + 4 ≤ c.stop) : int c =
    .ok (UInt32.ofNat (c.order.value (c.unread.take 4))).toInt32.toInt (c.advance 4) :=
  map_of_ok (map_of_ok ((number_eq 4 c).trans (if_pos h)))

theorem int_of_lt {c : Cursor} (h : ¬ c.offset + 4 ≤ c.stop) : int c = .error ⟨c.offset, 4⟩ c :=
  map_of_error (map_of_error ((number_eq 4 c).trans (if_neg h)))

theorem read_on_eq_error_iff {c : Cursor} (hw : c.Within) {e : PayloadError} :
    read.on c = .error e ↔ (c.unread.length < 4 ∨ 0 ∉ c.unread.drop 4) ∧
      e = .truncated (shortage c.offset c.unread) := by
  have hstop := hw.stop_eq
  have hrun : read = (int.mapError PayloadError.truncated >>= fun value =>
    string.mapError PayloadError.truncated >>= fun name => pure { name, value }) := rfl
  by_cases hlength : c.unread.length < 4
  · have hint : int.mapError PayloadError.truncated c = .error (.truncated ⟨c.offset, 4⟩) c :=
      mapError_of_error (int_of_lt (by omega))
    rw [hrun, on_of_error (bind_of_error hint), shortage, if_pos hlength]
    constructor
    · intro h
      cases h
      exact ⟨.inl hlength, rfl⟩
    · rintro ⟨-, rfl⟩
      rfl
  · have hint : int.mapError PayloadError.truncated c = .ok _ (c.advance 4) :=
      mapError_eq_ok_iff.mpr (int_of_le (by omega))
    have hstring : (string.mapError PayloadError.truncated).on (c.advance 4) = .error e ↔
        0 ∉ c.unread.drop 4 ∧ .truncated ⟨c.offset + 4, (c.unread.drop 4).length + 1⟩ = e := by
      rw [mapError_on_eq_error_iff]
      simp only [on_eq_error_iff, string_eq_error_iff]
      constructor
      · rintro ⟨_, ⟨c', hzero, rfl, rfl⟩, rfl⟩
        exact ⟨hzero, rfl⟩
      · rintro ⟨hzero, rfl⟩
        exact ⟨_, ⟨_, hzero, rfl, rfl⟩, rfl⟩
    rw [hrun, bind_on_eq_error_iff, shortage, if_neg hlength]
    constructor
    · rintro (h | ⟨value, c₁, hvalue, h⟩)
      · exact absurd hint (ne_ok_of_on_eq_error h)
      · cases hint.symm.trans hvalue
        rcases bind_on_eq_error_iff.mp h with h | ⟨name, c₂, -, hpure⟩
        · obtain ⟨hzero, rfl⟩ := hstring.mp h
          exact ⟨.inr hzero, rfl⟩
        · cases hpure
    · rintro ⟨hcut, rfl⟩
      have hzero := hstring.mpr ⟨hcut.resolve_left hlength, rfl⟩
      exact .inr ⟨_, _, hint, bind_on_eq_error_iff.mpr (.inl hzero)⟩

/-- Where an item begins that is cut short, reading stops. -/
theorem itemOrEnd_read_on_eq_error_iff {p rest : List UInt8} {e : PayloadError} :
    (itemOrEnd read).on ((Cursor.ofBytes order (p ++ rest) 0).advance p.length) = .error e ↔
      CutShort order rest ∧ e = .truncated (shortage p.length rest) := by
  have hunread : ((Cursor.ofBytes order (p ++ rest) 0).advance p.length).unread = rest :=
    List.drop_left
  have hoffset : ((Cursor.ofBytes order (p ++ rest) 0).advance p.length).offset = p.length :=
    Nat.zero_add _
  have hw : ((Cursor.ofBytes order (p ++ rest) 0).advance p.length).Within := by
    show 0 + p.length ≤ (p ++ rest).length
    rw [List.length_append]
    omega
  rw [itemOrEnd_on_eq_error_iff, read_on_eq_error_iff hw, ← Bool.not_eq_true, hw.atEnd_iff,
    hunread, hoffset, cutShort_iff, Nat.lt_one_iff, List.length_eq_zero_iff, and_assoc]

theorem decodeList_eq_error_iff {block : List UInt8} {e : PayloadError} :
    decodeList order block = .error e ↔ ∃ items es rest, block = items.flatten ++ rest ∧
      List.Forall₂ (Spans order) items es ∧ CutShort order rest ∧
      e = .truncated (shortage items.flatten.length rest) := by
  have hread : decodeList order block = .error e ↔ ∃ p es, p <+: block ∧
      Tiles (fun _ => Spans order) 0 p es ∧
      (itemOrEnd read).on ((Cursor.ofBytes order block 0).advance p.length) = .error e := by
    rw [decodeList, toEnd_eq]
    exact (accepts_read.untilEnd Spans.ne_nil).collect_on_eq_error_iff rfl (Nat.zero_le _)
  rw [hread]
  constructor
  · rintro ⟨_, es, ⟨rest, rfl⟩, htiles, herror⟩
    obtain ⟨items, rfl, hitems⟩ := tiles_iff_forall₂.mp htiles
    exact ⟨items, es, rest, rfl, hitems, itemOrEnd_read_on_eq_error_iff.mp herror⟩
  · rintro ⟨items, es, rest, rfl, hitems, herror⟩
    exact ⟨items.flatten, es, ⟨rest, rfl⟩, tiles_iff_forall₂.mpr ⟨items, rfl, hitems⟩,
      itemOrEnd_read_on_eq_error_iff.mpr herror⟩

/-! ## Writing -/

/-- A value of 32 bits, and a name without a zero in it. -/
structure Writable (e : Enumerator) : Prop where
  low : -2 ^ 31 ≤ e.value
  high : e.value < 2 ^ 31
  name : '\x00' ∉ e.name.toList

def encode (order : ByteOrder) (e : Enumerator) : List UInt8 :=
  order.bytes 4 (e.value % 2 ^ 32).toNat ++ (Utf8.encode e.name ++ [0])

theorem spans_encode {e : Enumerator} (h : e.Writable) : Spans order (e.encode order) e := by
  have hlow := h.low
  have hhigh := h.high
  have hword := order.length_bytes 4 (e.value % 2 ^ 32).toNat
  have hvalue : (order.value (order.bytes 4 (e.value % 2 ^ 32).toNat) : Int).bmod (2 ^ 32) =
      e.value := by
    have hmod : e.value % 2 ^ 32 = e.value % ((2 ^ 32 : Nat) : Int) := rfl
    rw [order.value_bytes (by omega), Int.toNat_of_nonneg (by omega), hmod, Int.emod_bmod,
      Int.bmod_eq_of_le (by omega) (by omega)]
  have hspans : Spans order (e.encode order) _ :=
    .mk hword (Utf8.zero_notMem_encode h.name)
  rwa [Utf8.text_encode, hvalue] at hspans

theorem decodeList_encode {es : List Enumerator} (h : ∀ e ∈ es, e.Writable) :
    decodeList order (es.flatMap (encode order)) = .ok es := by
  refine decodeList_eq_ok_iff.mpr ⟨es.map (encode order), rfl, ?_⟩
  rw [List.forall₂_map_left_iff, List.forall₂_same]
  intro e he
  exact spans_encode (h e he)

/-- A block is an element list exactly if it is items one after another, and then each gives its
enumerator.  So enumerators that can be written come back from what they are written as, and a
block is refused exactly if its last item is cut short. -/
theorem decodeList_items (order : ByteOrder) :
    (∀ block es, decodeList order block = .ok es ↔
      ∃ items, block = items.flatten ∧ List.Forall₂ (Spans order) items es) ∧
    (∀ es : List Enumerator, (∀ e ∈ es, e.Writable) →
      decodeList order (es.flatMap (encode order)) = .ok es) ∧
    (∀ block e, decodeList order block = .error e ↔ ∃ items es rest,
      block = items.flatten ++ rest ∧ List.Forall₂ (Spans order) items es ∧ CutShort order rest ∧
        e = .truncated (shortage items.flatten.length rest)) := by
  refine ⟨?_, ?_, ?_⟩
  · intro block es
    exact decodeList_eq_ok_iff
  · intro es hes
    exact decodeList_encode hes
  · intro block e
    exact decodeList_eq_error_iff

/-- A negative value, and the greatest one under an empty name. -/
def limits : List Enumerator :=
  [⟨"MIN", -1⟩, ⟨"", 0x7fffffff⟩]

theorem decodeList_items_limits : (∀ e ∈ limits, e.Writable) ∧
    decodeList .little (limits.flatMap (encode .little)) = .ok limits := by
  have hlimits : ∀ e ∈ limits, e.Writable := by
    refine List.forall_mem_cons.mpr ⟨⟨by decide, by decide, by decide⟩, ?_⟩
    exact List.forall_mem_singleton.mpr ⟨by decide, by decide, by decide⟩
  exact ⟨hlimits, (decodeList_items .little).2.1 limits hlimits⟩

-- the second name is not closed
example : decodeList .big [0, 0, 0, 7, 65, 0, 0xff, 0xff, 0xff, 0xff, 66] =
    .error (.truncated ⟨10, 2⟩) := by
  decide

end Enumerator
end DwarfOne
