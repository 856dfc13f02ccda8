/-
# `Proofs.Record.Layout` — the bytes behind a record

What the readers of `Record.Attribute` and `Record.Frame` accept, written down
as formats: `AttributeValue.Holds` for the bytes of a value in a form,
`Attribute.Spans` for a name followed by such bytes, `RawRecord.Spans` for a
whole record.  `readAll_eq_ok_iff` then says that a section is read into records
exactly when these tile it, up to fewer than four bytes at its end.
-/
import DwarfOne.Record.Frame
import DwarfOne.Proofs.Bytes.Format

namespace DwarfOne

open Reader

/-! ## Values -/

namespace AttributeValue

/-- A value that is one number of fixed width. -/
def HoldsNumber (order : ByteOrder) (width : Nat) (mk : Nat → AttributeValue)
    (p : List UInt8) (v : AttributeValue) : Prop :=
  p.length = width ∧ v = mk (order.value p)

/-- A block after its length in so many bytes. -/
def HoldsBlock (order : ByteOrder) (width : Nat) (p : List UInt8) (v : AttributeValue) : Prop :=
  ∃ n b, p = n ++ b ∧ n.length = width ∧ order.value n = b.length ∧ v = .block b

/-- The bytes `p` hold the value `v` in a form. -/
def Holds (order : ByteOrder) : Form → List UInt8 → AttributeValue → Prop
  | .addr => HoldsNumber order 4 fun n => .address (UInt32.ofNat n)
  | .ref => HoldsNumber order 4 fun n => .reference (UInt32.ofNat n)
  | .block2 => HoldsBlock order 2
  | .block4 => HoldsBlock order 4
  | .data2 => HoldsNumber order 2 fun n => .data2 (UInt16.ofNat n)
  | .data4 => HoldsNumber order 4 fun n => .data4 (UInt32.ofNat n)
  | .data8 => HoldsNumber order 8 fun n => .data8 (UInt64.ofNat n)
  | .string => fun p v => ∃ q, p = q ++ [0] ∧ 0 ∉ q ∧ v = .string (Utf8.text q)

end AttributeValue

theorem toNat_ofNat16 {order : ByteOrder} {n : List UInt8} (h : n.length = 2) :
    (UInt16.ofNat (order.value n)).toNat = order.value n := by
  have hlt := order.value_lt n
  rw [h] at hlt
  exact UInt16.toNat_ofNat_of_lt' hlt

theorem toNat_ofNat32 {order : ByteOrder} {n : List UInt8} (h : n.length = 4) :
    (UInt32.ofNat (order.value n)).toNat = order.value n := by
  have hlt := order.value_lt n
  rw [h] at hlt
  exact UInt32.toNat_ofNat_of_lt' hlt

namespace AttributeValue

variable {order : ByteOrder}

theorem accepts_fixed {α : Type} (width : Nat) (f : Nat → α) (mk : α → AttributeValue) :
    (mk <$> f <$> number width).Accepts order
      (fun _ => HoldsNumber order width fun n => mk (f n)) := by
  refine ((accepts_word width f).map mk).congr ?_
  intro _ p v
  constructor
  · rintro ⟨_, ⟨hlen, rfl⟩, rfl⟩
    exact ⟨hlen, rfl⟩
  · rintro ⟨hlen, rfl⟩
    exact ⟨_, ⟨hlen, rfl⟩, rfl⟩

theorem accepts_sized {α : Type} (width : Nat) (f : Nat → α) (size : α → Nat)
    (hsize : ∀ n : List UInt8, n.length = width → size (f (order.value n)) = order.value n) :
    (f <$> number width >>= fun n => AttributeValue.block <$> Reader.block (size n)).Accepts order
      (fun _ => HoldsBlock order width) := by
  refine ((accepts_word width f).bind fun n =>
    (accepts_block (size n)).map AttributeValue.block).congr ?_
  intro _ p v
  constructor
  · rintro ⟨n, b, _, rfl, ⟨hn, rfl⟩, _, ⟨hb, rfl⟩, rfl⟩
    exact ⟨n, _, rfl, hn, by rw [hb, hsize n hn], rfl⟩
  · rintro ⟨n, b, rfl, hn, hb, rfl⟩
    exact ⟨n, b, _, rfl, ⟨hn, rfl⟩, b, ⟨by rw [hsize n hn, hb], rfl⟩, rfl⟩

/-- The reader of a form accepts the bytes that hold a value in it. -/
theorem accepts_read (form : Form) :
    (AttributeValue.read form).Accepts order (fun _ => Holds order form) := by
  cases form with
  | addr => exact accepts_fixed 4 UInt32.ofNat .address
  | ref => exact accepts_fixed 4 UInt32.ofNat .reference
  | block2 => exact accepts_sized 2 UInt16.ofNat UInt16.toNat fun _ => toNat_ofNat16
  | block4 => exact accepts_sized 4 UInt32.ofNat UInt32.toNat fun _ => toNat_ofNat32
  | data2 => exact accepts_fixed 2 UInt16.ofNat .data2
  | data4 => exact accepts_fixed 4 UInt32.ofNat .data4
  | data8 => exact accepts_fixed 8 UInt64.ofNat .data8
  | string =>
      refine (accepts_string.map AttributeValue.string).congr fun _ p v => ?_
      constructor
      · rintro ⟨_, ⟨q, rfl, hq, rfl⟩, rfl⟩
        exact ⟨q, rfl, hq, rfl⟩
      · rintro ⟨q, rfl, hq, rfl⟩
        exact ⟨_, ⟨q, rfl, hq, rfl⟩, rfl⟩

end AttributeValue

/-! ## Attributes -/

namespace Attribute

variable {order : ByteOrder}

/-- An attribute lies in the bytes `p` at an offset: two of them are its name,
the others hold its value in the form the name gives. -/
def Spans (order : ByteOrder) : Format Attribute := fun offset p a =>
  ∃ n v form, p = n ++ v ∧ n.length = 2 ∧ a.offset = UInt32.ofNat offset ∧
    a.rawName = UInt16.ofNat (order.value n) ∧ a.form? = some form ∧
    AttributeValue.Holds order form v a.value

theorem Spans.ne_nil {offset : Nat} {p : List UInt8} {a : Attribute}
    (h : Spans order offset p a) : p ≠ [] := by
  obtain ⟨n, v, form, rfl, hn, -⟩ := h
  intro hnil
  simp [(List.append_eq_nil_iff.mp hnil).1] at hn

theorem knownForm_eq_ok_iff {rawName : UInt16} {offset : Nat} {form : Form} :
    knownForm rawName offset = .ok form ↔ Form.ofName? rawName = some form := by
  unfold knownForm
  cases Form.ofName? rawName with
  | none => exact ⟨nofun, nofun⟩
  | some f => simp

theorem accepts_read : Attribute.read.Accepts order (Spans order) := by
  refine (accepts_at_offset fun offset =>
    (((accepts_word 2 UInt16.ofNat).mapError DebugError.truncated).bind fun rawName =>
      (accepts_lift (knownForm rawName offset)).bind fun form =>
        ((AttributeValue.accepts_read form).mapError DebugError.truncated).bind fun value =>
          accepts_pure (Attribute.mk (UInt32.ofNat offset) rawName value))).congr ?_
  intro offset p a
  constructor
  · rintro ⟨n, _, rawName, rfl, ⟨hn, rfl⟩, _, _, form, rfl, ⟨rfl, hform⟩, v, _, value, rfl, hv,
      rfl, rfl⟩
    exact ⟨n, v, form, by simp, hn, rfl, rfl, knownForm_eq_ok_iff.mp hform, hv⟩
  · rintro ⟨n, v, form, rfl, hn, hoff, hname, hform, hv⟩
    refine ⟨n, v, _, rfl, ⟨hn, rfl⟩, [], v, form, rfl, ⟨rfl, ?_⟩, v, [], a.value, by simp, hv,
      rfl, ?_⟩
    · rw [← hname]
      exact knownForm_eq_ok_iff.mpr hform
    · rw [← hname, ← hoff]

end Attribute

/-! ## Records -/

theorem Tag.ofValue_eq_padding_iff {value : UInt16} : Tag.ofValue value = .padding ↔ value = 0 := by
  unfold Tag.ofValue
  constructor
  · intro h
    split at h
    case h_1 => rfl
    all_goals first | cases h | (split at h <;> cases h)
  · rintro rfl
    rfl

/-- The length at the start of a record's bytes. -/
def Frame.lengthField (order : ByteOrder) (p : List UInt8) : UInt32 :=
  UInt32.ofNat (order.value (p.take 4))

/-- The tag after it, or zero in a record too short to have one. -/
def Frame.tagField (order : ByteOrder) (p : List UInt8) : UInt16 :=
  if 6 ≤ Frame.lengthField order p then UInt16.ofNat (order.value ((p.drop 4).take 2)) else 0

namespace Frame

variable {order : ByteOrder} {c : Cursor}

/-- How many bytes the record at the start of some bytes takes. -/
def sizeField (order : ByteOrder) (p : List UInt8) : Nat :=
  max (lengthField order p).toNat 4

theorem four_le_sizeField (order : ByteOrder) (p : List UInt8) : 4 ≤ sizeField order p :=
  Nat.le_max_right _ _

/-- The frame that is cut off ahead of a cursor. -/
def ahead (c : Cursor) : Frame where
  start := c.offset
  length := lengthField c.order c.unread
  tag := tagField c.order c.unread
  body := (c.limit (sizeField c.order c.unread)).advance 6

theorem word_of_le (hw : c.Within) (h : 4 ≤ c.unread.length) :
    Reader.word c = .ok (lengthField c.order c.unread) (c.advance 4) := by
  have hlen : (c.unread.take 4).length = 4 := by
    rw [List.length_take]
    omega
  refine (accepts_word 4 UInt32.ofNat c rfl hw _ _).mpr
    ⟨c.unread.take 4, List.take_prefix _ _, ⟨hlen, rfl⟩, by rw [hlen]⟩

theorem half_of_le (hw : c.Within) (h : 2 ≤ c.unread.length) :
    Reader.half c = .ok (UInt16.ofNat (c.order.value (c.unread.take 2))) (c.advance 2) := by
  have hlen : (c.unread.take 2).length = 2 := by
    rw [List.length_take]
    omega
  refine (accepts_word 2 UInt16.ofNat c rfl hw _ _).mpr
    ⟨c.unread.take 2, List.take_prefix _ _, ⟨hlen, rfl⟩, by rw [hlen]⟩

theorem liftM_of_ok {α : Type} {r : Reader OutOfBounds α} {a : α} {c' : Cursor}
    (h : r c = .ok a c') : (liftM r : Reader DebugError α) c = .ok a c' :=
  mapError_eq_ok_iff.mpr h

/-- Everything `next?` can do. -/
theorem next?_eq (hw : c.Within) :
    next? c =
      if c.unread.length < 4 then .ok none c
      else if c.unread.length < sizeField c.order c.unread then
        .error (.recordOverrun c.offset (lengthField c.order c.unread) c.stop) (c.advance 4)
      else .ok (some (ahead c)) (c.advance (sizeField c.order c.unread)) := by
  show (if c.remaining < 4 then pure none else _ : Reader DebugError (Option Frame)) c = _
  rw [c.remaining_eq]
  split
  case isTrue h => rfl
  case isFalse h =>
      rw [bind_of_ok (liftM_of_ok (word_of_le hw (Nat.le_of_not_lt h)))]
      show (if c.unread.length < sizeField c.order c.unread then _ else _ :
        Reader DebugError (Option Frame)) _ = _
      split
      case isTrue hshort => rfl
      case isFalse hfits =>
          by_cases htag : 6 ≤ lengthField c.order c.unread
          · have hsix : 6 ≤ sizeField c.order c.unread :=
              Nat.le_trans (UInt32.le_iff_toNat_le.mp htag) (Nat.le_max_left _ _)
            have hhalf := half_of_le (hw.advance_of_le (Nat.le_of_not_lt h))
              (by rw [Cursor.unread_advance, List.length_drop]; omega)
            have htagField : UInt16.ofNat (c.order.value ((c.unread.drop 4).take 2)) =
                tagField c.order c.unread := by rw [tagField, if_pos htag]
            rw [if_pos htag, bind_of_ok (liftM_of_ok hhalf), Cursor.order_advance,
              Cursor.unread_advance, htagField]
            rfl
          · have htagField : 0 = tagField c.order c.unread := by rw [tagField, if_neg htag]
            rw [if_neg htag, htagField]
            rfl

theorem next?_eq_none_iff (hw : c.Within) {c' : Cursor} :
    next? c = .ok none c' ↔ c.unread.length < 4 ∧ c' = c := by
  rw [next?_eq hw]
  split
  case isTrue h => simp [h, eq_comm]
  case isFalse h =>
      refine ⟨?_, fun h' => absurd h'.1 h⟩
      split
      · nofun
      · nofun

theorem next?_eq_some_iff (hw : c.Within) {f : Frame} {c' : Cursor} :
    next? c = .ok (some f) c' ↔
      sizeField c.order c.unread ≤ c.unread.length ∧
        f = ahead c ∧ c' = c.advance (sizeField c.order c.unread) := by
  have hfour := four_le_sizeField c.order c.unread
  rw [next?_eq hw]
  split
  case isTrue h => exact ⟨nofun, fun h' => by omega⟩
  case isFalse h =>
      split
      case isTrue hshort => exact ⟨nofun, fun h' => by omega⟩
      case isFalse hfits =>
          constructor
          · intro hok
            cases hok
            exact ⟨Nat.le_of_not_lt hfits, rfl, rfl⟩
          · rintro ⟨-, rfl, rfl⟩
            rfl

theorem lengthField_append {p : List UInt8} (hp : 4 ≤ p.length) (t : List UInt8) :
    lengthField order (p ++ t) = lengthField order p := by
  rw [lengthField, lengthField, List.take_append_of_le_length hp]

theorem sizeField_append {p : List UInt8} (hp : 4 ≤ p.length) (t : List UInt8) :
    sizeField order (p ++ t) = sizeField order p := by
  rw [sizeField, sizeField, lengthField_append hp]

theorem tagField_append {p : List UInt8} (hp : sizeField order p ≤ p.length) (t : List UInt8) :
    tagField order (p ++ t) = tagField order p := by
  have hfour := four_le_sizeField order p
  simp only [tagField, lengthField_append (Nat.le_trans hfour hp)]
  split
  case isTrue htag =>
      have hsix : 6 ≤ p.length :=
        Nat.le_trans (UInt32.le_iff_toNat_le.mp htag) (Nat.le_trans (Nat.le_max_left _ _) hp)
      rw [List.drop_append_of_le_length (by omega),
        List.take_append_of_le_length (by rw [List.length_drop]; omega)]
  case isFalse => rfl

end Frame

attribute [ext] RawRecord

/-- A record lies in the bytes `p` at an offset: its length, its tag if there
is room for one, and attributes that tile the rest if it has any. -/
structure RawRecord.Spans (order : ByteOrder) (offset : Nat) (p : List UInt8)
    (r : RawRecord) : Prop where
  offset_eq : r.offset = UInt32.ofNat offset
  length_eq : r.length = Frame.lengthField order p
  size_eq : p.length = max r.length.toNat 4
  tag_eq : r.tag = Tag.ofValue (Frame.tagField order p)
  attributes : if 8 ≤ r.length ∧ r.tag ≠ .padding then
      Tiles (Attribute.Spans order) (offset + 6) (p.drop 6) r.attributes
    else r.attributes = []

namespace Frame

variable {order : ByteOrder} {c : Cursor}

theorem hasAttributes_iff {f : Frame} :
    f.hasAttributes = true ↔ 8 ≤ f.length ∧ Tag.ofValue f.tag ≠ .padding := by
  rw [Ne, Tag.ofValue_eq_padding_iff]
  simp [hasAttributes]

theorem read_eq_ok_iff {f : Frame} {r : RawRecord} :
    f.read = .ok r ↔ ∃ as,
      (if f.hasAttributes then (toEnd Attribute.read).on f.body else .ok []) = .ok as ∧
        r = ⟨UInt32.ofNat f.start, f.length, Tag.ofValue f.tag, as⟩ := by
  simp only [read]
  split
  case isTrue =>
      cases (toEnd Attribute.read).on f.body with
      | error e => exact ⟨nofun, nofun⟩
      | ok as =>
          constructor
          · intro h
            cases h
            exact ⟨as, rfl, rfl⟩
          · rintro ⟨_, h, rfl⟩
            cases h
            rfl
  case isFalse =>
      constructor
      · intro h
        cases h
        exact ⟨[], rfl, rfl⟩
      · rintro ⟨_, h, rfl⟩
        cases h
        rfl

/-- The frame ahead is read into a record exactly when the record lies there. -/
theorem read_ahead_eq_ok_iff (hc : c.order = order) (hw : c.Within) {p t : List UInt8}
    (hpt : c.unread = p ++ t) (hp : p.length = sizeField order p) {r : RawRecord} :
    (ahead c).read = .ok r ↔ RawRecord.Spans order c.offset p r := by
  have hfour : 4 ≤ p.length := hp ▸ four_le_sizeField order p
  have hlength : (ahead c).length = lengthField order p := by
    show lengthField c.order c.unread = _
    rw [hc, hpt, lengthField_append hfour]
  have htag : (ahead c).tag = tagField order p := by
    show tagField c.order c.unread = _
    rw [hc, hpt, tagField_append (Nat.le_of_eq hp.symm)]
  have hlimit : (c.limit (sizeField c.order c.unread)).unread = p := by
    show c.unread.take _ = p
    rw [hc, hpt, sizeField_append hfour, ← hp, List.take_left]
  have hwlimit : (c.limit (sizeField c.order c.unread)).Within := by
    show c.offset ≤ min _ c.stop
    exact Nat.le_min.mpr ⟨Nat.le_add_right _ _, hw⟩
  have hbody : (ahead c).body.unread = p.drop 6 := by
    show (c.limit _).unread.drop 6 = _
    rw [hlimit]
  rw [read_eq_ok_iff, hlength, htag]
  by_cases hattr : (ahead c).hasAttributes = true
  · have hcond := hasAttributes_iff.mp hattr
    rw [hlength, htag] at hcond
    have height : 8 ≤ (lengthField order p).toNat := UInt32.le_iff_toNat_le.mp hcond.1
    have hsix : 6 ≤ p.length := by
      rw [hp, sizeField]
      omega
    have hwbody : (ahead c).body.Within := hwlimit.advance_of_le (by rw [hlimit]; exact hsix)
    have htiles : ∀ as, (toEnd Attribute.read).on (ahead c).body = .ok as ↔
        Tiles (Attribute.Spans order) (c.offset + 6) (p.drop 6) as := by
      intro as
      rw [Attribute.accepts_read.toEnd_on_eq_ok_iff Attribute.Spans.ne_nil (c := (ahead c).body)
        hc hwbody, hbody]
      rfl
    rw [if_pos hattr]
    constructor
    · rintro ⟨as, has, rfl⟩
      exact ⟨rfl, rfl, hp, rfl, by rw [if_pos hcond]; exact (htiles as).mp has⟩
    · rintro ⟨hoff, hlen, -, htagr, hattrs⟩
      rw [hlen, htagr, if_pos hcond] at hattrs
      exact ⟨r.attributes, (htiles _).mpr hattrs, RawRecord.ext hoff hlen htagr rfl⟩
  · have hcond : ¬ (8 ≤ lengthField order p ∧ Tag.ofValue (tagField order p) ≠ .padding) := by
      rwa [← hlength, ← htag, ← hasAttributes_iff]
    rw [if_neg hattr]
    constructor
    · rintro ⟨as, has, rfl⟩
      cases has
      exact ⟨rfl, rfl, hp, rfl, by rw [if_neg hcond]⟩
    · rintro ⟨hoff, hlen, -, htagr, hattrs⟩
      rw [hlen, htagr, if_neg hcond] at hattrs
      exact ⟨[], rfl, RawRecord.ext hoff hlen htagr hattrs⟩

end Frame

namespace RawRecord

variable {order : ByteOrder}

theorem Spans.ne_nil {offset : Nat} {p : List UInt8} {r : RawRecord}
    (h : Spans order offset p r) : p ≠ [] := by
  intro hnil
  have hsize := h.size_eq
  rw [hnil, List.length_nil] at hsize
  omega

/-- The reader that `readAll` collects. -/
def read? : Reader DebugError (Option RawRecord) := do
  match ← Frame.next? with
  | none => return none
  | some frame => return some (← frame.read)

theorem read?_eq_ok_iff {c c' : Cursor} {x : Option RawRecord} :
    read? c = .ok x c' ↔
      (Frame.next? c = .ok none c' ∧ x = none) ∨
        ∃ f r, Frame.next? c = .ok (some f) c' ∧ f.read = .ok r ∧ x = some r := by
  rw [read?, bind_eq_ok_iff]
  constructor
  · rintro ⟨none | f, c₁, hnext, hok⟩
    · cases hok
      exact .inl ⟨hnext, rfl⟩
    · obtain ⟨r, c₂, hread, hx⟩ := bind_eq_ok_iff.mp hok
      obtain ⟨hr, rfl⟩ := lift_eq_ok_iff.mp hread
      cases hx
      exact .inr ⟨f, r, hnext, hr, rfl⟩
  · rintro (⟨hnext, rfl⟩ | ⟨f, r, hnext, hread, rfl⟩)
    · exact ⟨none, c', hnext, rfl⟩
    · exact ⟨some f, c', hnext,
        bind_eq_ok_iff.mpr ⟨r, c', lift_eq_ok_iff.mpr ⟨hread, rfl⟩, rfl⟩⟩

theorem accepts_read? : AcceptsUntil read? order 4 (Spans order) where
  none_iff c hc hw c' := by
    rw [read?_eq_ok_iff, ← Frame.next?_eq_none_iff hw]
    constructor
    · rintro (⟨hnext, -⟩ | ⟨_, _, _, _, h⟩)
      · exact hnext
      · cases h
    · intro hnext
      exact .inl ⟨hnext, rfl⟩
  some_iff c hc hw r c' := by
    subst hc
    rw [read?_eq_ok_iff]
    constructor
    · rintro (⟨_, h⟩ | ⟨f, r', hnext, hread, hr⟩)
      · cases h
      · cases hr
        obtain ⟨hfits, rfl, rfl⟩ := (Frame.next?_eq_some_iff hw).mp hnext
        -- the record's own bytes are those its length field counts
        obtain ⟨p, t, hpt, hp⟩ : ∃ p t, c.unread = p ++ t ∧
            p.length = Frame.sizeField c.order c.unread :=
          ⟨c.unread.take (Frame.sizeField c.order c.unread), _,
            (List.take_append_drop _ _).symm, by rw [List.length_take]; omega⟩
        have hfour : 4 ≤ p.length := hp ▸ Frame.four_le_sizeField _ _
        have hsize : p.length = Frame.sizeField c.order p := by
          rw [hp, hpt, Frame.sizeField_append hfour]
        rw [← hp]
        exact ⟨p, ⟨t, hpt.symm⟩, (Frame.read_ahead_eq_ok_iff rfl hw hpt hsize).mp hread, rfl⟩
    · rintro ⟨p, ⟨t, ht⟩, hspans, rfl⟩
      have hsize : p.length = Frame.sizeField c.order p := by
        rw [Frame.sizeField, ← hspans.length_eq]
        exact hspans.size_eq
      have hfour : 4 ≤ p.length := hsize ▸ Frame.four_le_sizeField _ _
      have hahead : Frame.sizeField c.order c.unread = p.length := by
        rw [← ht, Frame.sizeField_append hfour, hsize]
      refine .inr ⟨Frame.ahead c, r, ?_, (Frame.read_ahead_eq_ok_iff rfl hw ht.symm hsize).mpr
        hspans, rfl⟩
      refine (Frame.next?_eq_some_iff hw).mpr ⟨?_, rfl, by rw [hahead]⟩
      rw [hahead, ← ht, List.length_append]
      exact Nat.le_add_right _ _
  ne_nil := Spans.ne_nil

/-- A section is read into records exactly when they tile it from its start,
up to fewer than four bytes. -/
theorem readAll_eq_ok_iff {bytes : List UInt8} {rs : List RawRecord} :
    readAll order bytes = .ok rs ↔
      ∃ p t, bytes = p ++ t ∧ t.length < 4 ∧ Tiles (Spans order) 0 p rs := by
  have hw : (Cursor.ofBytes order bytes 0).Within := Nat.zero_le _
  exact accepts_read?.collect_on_eq_ok_iff rfl hw

end RawRecord

end DwarfOne
