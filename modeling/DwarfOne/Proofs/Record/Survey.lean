/-
# `Proofs.Record.Survey` — what can be surveyed can be read

The survey steps over the bytes that the reading walk takes values from.  Step
for step the two accept the same bytes, so the survey succeeds exactly when the
reading does, and then counts what is read (`survey_eq_ok_iff`).
-/
import DwarfOne.Proofs.Record.Layout

namespace DwarfOne

open Reader

namespace Attribute

variable {order : ByteOrder}

theorem accepts_skipBytes (size : Nat) :
    (skipBytes size).Accepts order (fun _ p _ => p.length = size) := by
  intro c _ hw u c'
  have hstop := hw.stop_eq
  simp only [skipBytes]
  split
  case isTrue h =>
      constructor
      · intro hok
        cases hok
        have hlen : (c.unread.take size).length = size := by
          rw [List.length_take]
          omega
        exact ⟨c.unread.take size, List.take_prefix _ _, hlen, by rw [hlen]⟩
      · rintro ⟨p, _, rfl, rfl⟩
        rfl
  case isFalse h =>
      refine ⟨nofun, ?_⟩
      rintro ⟨p, hp, rfl, -⟩
      exact absurd hp.length_le (by omega)

/-- Stepping over a number takes the bytes that reading it takes. -/
theorem accepts_skipNumber (width : Nat) (mk : Nat → AttributeValue) :
    (skipBytes width).Accepts order
      (fun _ p _ => ∃ v, AttributeValue.HoldsNumber order width mk p v) :=
  (accepts_skipBytes width).congr fun _ _ _ =>
    ⟨fun h => ⟨_, h, rfl⟩, fun ⟨_, h, _⟩ => h⟩

theorem accepts_discard {ε α : Type} {r : Reader ε α} {F : Format α} (h : r.Accepts order F) :
    (discard r).Accepts order (fun offset p _ => ∃ a, F offset p a) :=
  (h.map fun _ => ()).congr fun _ _ _ =>
    ⟨fun ⟨a, ha, _⟩ => ⟨a, ha⟩, fun ⟨a, ha⟩ => ⟨a, ha, rfl⟩⟩

theorem accepts_skipSized {α : Type} (width : Nat) (f : Nat → α) (size : α → Nat)
    (hsize : ∀ n : List UInt8, n.length = width → size (f (order.value n)) = order.value n) :
    (f <$> number width >>= fun n => discard (Reader.block (size n))).Accepts order
      (fun _ p _ => ∃ v, AttributeValue.HoldsBlock order width p v) := by
  refine ((accepts_word width f).bind fun n => accepts_discard (accepts_block (size n))).congr ?_
  intro _ p u
  constructor
  · rintro ⟨n, b, _, rfl, ⟨hn, rfl⟩, _, hb, rfl⟩
    exact ⟨_, n, _, rfl, hn, by rw [hb, hsize n hn], rfl⟩
  · rintro ⟨_, n, b, rfl, hn, hb, rfl⟩
    exact ⟨n, b, _, rfl, ⟨hn, rfl⟩, b, by rw [hsize n hn, hb], rfl⟩

theorem accepts_skipValue (form : Form) :
    (skipValue form).Accepts order (fun _ p _ => ∃ v, AttributeValue.Holds order form p v) := by
  cases form with
  | addr => exact accepts_skipNumber 4 fun n => .address (UInt32.ofNat n)
  | ref => exact accepts_skipNumber 4 fun n => .reference (UInt32.ofNat n)
  | block2 => exact accepts_skipSized 2 UInt16.ofNat UInt16.toNat fun _ => toNat_ofNat16
  | block4 => exact accepts_skipSized 4 UInt32.ofNat UInt32.toNat fun _ => toNat_ofNat32
  | data2 => exact accepts_skipNumber 2 fun n => .data2 (UInt16.ofNat n)
  | data4 => exact accepts_skipNumber 4 fun n => .data4 (UInt32.ofNat n)
  | data8 => exact accepts_skipNumber 8 fun n => .data8 (UInt64.ofNat n)
  | string =>
      refine (accepts_discard accepts_string).congr fun _ p u => ?_
      constructor
      · rintro ⟨_, q, rfl, hq, rfl⟩
        exact ⟨_, q, rfl, hq, rfl⟩
      · rintro ⟨_, q, rfl, hq, rfl⟩
        exact ⟨_, q, rfl, hq, rfl⟩

/-- An attribute is stepped over exactly where it can be read. -/
theorem accepts_skip :
    skip.Accepts order (fun offset p u => ∃ a, Spans order offset p a ∧ (fun _ => ()) a = u) := by
  refine (accepts_at_offset fun offset =>
    (((accepts_word 2 UInt16.ofNat).mapError DebugError.truncated).bind fun rawName =>
      (accepts_lift (knownForm rawName offset)).bind fun form =>
        (accepts_skipValue form).mapError DebugError.truncated)).congr ?_
  intro offset p u
  constructor
  · rintro ⟨n, _, rawName, rfl, ⟨hn, rfl⟩, _, v, form, rfl, ⟨rfl, hform⟩, value, hv⟩
    exact ⟨⟨_, _, value⟩, ⟨n, v, form, rfl, hn, rfl, rfl, knownForm_eq_ok_iff.mp hform, hv⟩, rfl⟩
  · rintro ⟨a, ⟨n, v, form, rfl, hn, -, hname, hform, hv⟩, -⟩
    refine ⟨n, v, _, rfl, ⟨hn, rfl⟩, [], v, form, rfl, ⟨rfl, ?_⟩, a.value, hv⟩
    rw [← hname]
    exact knownForm_eq_ok_iff.mpr hform

/-- Stepping to the end steps over as many attributes as are read. -/
theorem toEnd_skip_on_eq_ok_iff {c : Cursor} (hw : c.Within) {us : List Unit} :
    (toEnd skip).on c = .ok us ↔
      ∃ as, (toEnd read).on c = .ok as ∧ as.map (fun _ => ()) = us := by
  rw [accepts_skip.toEnd_on_eq_ok_iff (fun ⟨_, h, _⟩ => h.ne_nil) rfl hw, tiles_map_iff]
  simp only [accepts_read.toEnd_on_eq_ok_iff Spans.ne_nil rfl hw]

end Attribute

namespace Frame

variable {c : Cursor}

/-- Counting a frame's attributes succeeds exactly when reading them does. -/
theorem count_eq_ok_iff {f : Frame} (hw : f.hasAttributes = true → f.body.Within) {n : Nat} :
    f.count = .ok n ↔ ∃ r, f.read = .ok r ∧ r.attributes.length = n := by
  simp only [read_eq_ok_iff, count]
  by_cases h : f.hasAttributes = true
  · rw [if_pos h, if_pos h]
    constructor
    · cases hus : (toEnd Attribute.skip).on f.body with
      | error e => nofun
      | ok us =>
          intro hn
          cases hn
          obtain ⟨as, has, rfl⟩ := (Attribute.toEnd_skip_on_eq_ok_iff (hw h)).mp hus
          exact ⟨_, ⟨as, has, rfl⟩, (List.length_map _).symm⟩
    · rintro ⟨_, ⟨as, has, rfl⟩, rfl⟩
      rw [(Attribute.toEnd_skip_on_eq_ok_iff (hw h)).mpr ⟨as, has, rfl⟩]
      exact congrArg Except.ok (List.length_map _)
  · rw [if_neg h, if_neg h]
    constructor
    · intro hn
      cases hn
      exact ⟨_, ⟨[], rfl, rfl⟩, rfl⟩
    · rintro ⟨_, ⟨_, has, rfl⟩, rfl⟩
      cases has
      rfl

theorem ahead_body_within (hw : c.Within) (hfits : sizeField c.order c.unread ≤ c.unread.length)
    (h : (ahead c).hasAttributes = true) : (ahead c).body.Within := by
  have height : 8 ≤ (lengthField c.order c.unread).toNat :=
    UInt32.le_iff_toNat_le.mp (hasAttributes_iff.mp h).1
  have hstop := hw.stop_eq
  show c.offset + 6 ≤ min (c.offset + sizeField c.order c.unread) c.stop
  have hsize : (lengthField c.order c.unread).toNat ≤ sizeField c.order c.unread :=
    Nat.le_max_left _ _
  omega

end Frame

/-- The reader that `survey` collects. -/
def RawRecord.count? : Reader DebugError (Option Nat) := do
  match ← Frame.next? with
  | none => return none
  | some frame => return some (← frame.count)

/-- The survey's step succeeds exactly when the reading step does, and leaves
the same bytes. -/
theorem RawRecord.count?_eq_ok_iff {c c' : Cursor} (hw : c.Within) {x : Option Nat} :
    count? c = .ok x c' ↔
      ∃ y, read? c = .ok y c' ∧ y.map (fun r => r.attributes.length) = x := by
  simp only [read?_eq_ok_iff]
  rw [count?, bind_eq_ok_iff]
  constructor
  · rintro ⟨none | f, c₁, hnext, hok⟩
    · cases hok
      exact ⟨none, .inl ⟨hnext, rfl⟩, rfl⟩
    · obtain ⟨n, c₂, hcount, hx⟩ := bind_eq_ok_iff.mp hok
      obtain ⟨hn, rfl⟩ := lift_eq_ok_iff.mp hcount
      cases hx
      obtain ⟨hfits, rfl, -⟩ := (Frame.next?_eq_some_iff hw).mp hnext
      obtain ⟨r, hr, rfl⟩ := (Frame.count_eq_ok_iff (Frame.ahead_body_within hw hfits)).mp hn
      exact ⟨some r, .inr ⟨_, r, hnext, hr, rfl⟩, rfl⟩
  · rintro ⟨_, ⟨hnext, rfl⟩ | ⟨f, r, hnext, hread, rfl⟩, rfl⟩
    · exact ⟨none, c', hnext, rfl⟩
    · obtain ⟨hfits, rfl, -⟩ := (Frame.next?_eq_some_iff hw).mp hnext
      have hcount := (Frame.count_eq_ok_iff (Frame.ahead_body_within hw hfits)).mpr
        ⟨r, hread, rfl⟩
      exact ⟨_, c', hnext, bind_eq_ok_iff.mpr ⟨_, c', lift_eq_ok_iff.mpr ⟨hcount, rfl⟩, rfl⟩⟩

theorem RawRecord.accepts_count? {order : ByteOrder} :
    AcceptsUntil count? order 4
      (fun offset p n => ∃ r, Spans order offset p r ∧ r.attributes.length = n) :=
  accepts_read?.map fun _ _ hw _ _ => count?_eq_ok_iff hw

/-- The survey succeeds exactly when the section can be read, and then counts
the attributes of each record. -/
theorem survey_eq_ok_iff {order : ByteOrder} {bytes : List UInt8} {ns : List Nat} :
    survey order bytes = .ok ns ↔
      ∃ rs, RawRecord.readAll order bytes = .ok rs ∧
        rs.map (fun r => r.attributes.length) = ns := by
  have hw : (Cursor.ofBytes order bytes 0).Within := Nat.zero_le _
  have hsurvey : survey order bytes = .ok ns ↔ _ :=
    RawRecord.accepts_count?.collect_on_eq_ok_iff rfl hw
  rw [hsurvey]
  simp only [RawRecord.readAll_eq_ok_iff, tiles_map_iff]
  constructor
  · rintro ⟨p, t, ht, hless, rs, htiles, hns⟩
    exact ⟨rs, ⟨p, t, ht, hless, htiles⟩, hns⟩
  · rintro ⟨rs, ⟨p, t, ht, hless, htiles⟩, hns⟩
    exact ⟨p, t, ht, hless, rs, htiles, hns⟩

end DwarfOne
