/-
# `Proofs.Bytes.Format` — what a reader accepts

A format says which bytes stand for which value.  A reader *accepts* a format
if it succeeds exactly on the bytes that begin with some in the format, takes
these and no more, and yields the value they stand for.  So acceptance is both
halves at once: what was read was there, and what is there will be read.

The lemmas follow the way readers are built.  The plain reads come first, then
sequencing, then `Reader.collect`, whose format is `Tiles`: items laid end to
end, each starting where the one before it stops.
-/
import DwarfOne.Bytes.Cursor
import DwarfOne.Proofs.Bytes.Order
import Mathlib.Data.List.Forall2

namespace DwarfOne

attribute [ext] Cursor

namespace Cursor

@[simp] theorem order_advance (c : Cursor) (n : Nat) : (c.advance n).order = c.order := rfl
@[simp] theorem offset_advance (c : Cursor) (n : Nat) : (c.advance n).offset = c.offset + n := rfl
@[simp] theorem stop_advance (c : Cursor) (n : Nat) : (c.advance n).stop = c.stop := rfl
@[simp] theorem unread_advance (c : Cursor) (n : Nat) :
    (c.advance n).unread = c.unread.drop n := rfl

@[simp] theorem advance_zero (c : Cursor) : c.advance 0 = c := by
  ext <;> simp

@[simp] theorem advance_advance (c : Cursor) (m n : Nat) :
    (c.advance m).advance n = c.advance (m + n) := by
  ext <;> simp [Nat.add_assoc]

/-- The cursor has not been moved past the end of its bytes. -/
def Within (c : Cursor) : Prop :=
  c.offset ≤ c.stop

theorem Within.stop_eq {c : Cursor} (h : c.Within) : c.stop = c.offset + c.unread.length := by
  rw [c.length_unread]
  exact (Nat.add_sub_cancel' h).symm

theorem Within.advance_of_le {c : Cursor} (h : c.Within) {n : Nat} (hn : n ≤ c.unread.length) :
    (c.advance n).Within := by
  have hstop := h.stop_eq
  show c.offset + n ≤ c.stop
  omega

theorem Within.advance {c : Cursor} (h : c.Within) {p : List UInt8} (hp : p <+: c.unread) :
    (c.advance p.length).Within :=
  h.advance_of_le hp.length_le

theorem remaining_eq (c : Cursor) : c.remaining = c.unread.length :=
  c.length_unread.symm

theorem Within.atEnd_iff {c : Cursor} (h : c.Within) : c.atEnd = true ↔ c.unread.length < 1 := by
  have hstop := h.stop_eq
  simp only [Cursor.atEnd, decide_eq_true_eq]
  omega

end Cursor

/-- Which bytes stand for which value when they lie at an offset. -/
abbrev Format (α : Type) := Nat → List UInt8 → α → Prop

/-- Items laid end to end: each lies where the one before it stops. -/
inductive Tiles {α : Type} (F : Format α) : Format (List α)
  | nil {offset : Nat} : Tiles F offset [] []
  | cons {offset : Nat} {p q : List UInt8} {a : α} {as : List α} :
      F offset p a → Tiles F (offset + p.length) q as → Tiles F offset (p ++ q) (a :: as)

/-- Tiling by the images of items is tiling by the items. -/
theorem tiles_map_iff {α β : Type} {F : Format α} {f : α → β} {offset : Nat}
    {p : List UInt8} {bs : List β} :
    Tiles (fun offset p b => ∃ a, F offset p a ∧ f a = b) offset p bs ↔
      ∃ as, Tiles F offset p as ∧ as.map f = bs := by
  constructor
  · intro h
    induction h with
    | nil => exact ⟨[], .nil, rfl⟩
    | cons hF _ ih =>
        obtain ⟨a, ha, rfl⟩ := hF
        obtain ⟨as, has, rfl⟩ := ih
        exact ⟨a :: as, .cons ha has, rfl⟩
  · rintro ⟨as, h, rfl⟩
    induction h with
    | nil => exact .nil
    | cons hF _ ih => exact .cons ⟨_, hF, rfl⟩ ih

/-- Items that lie anywhere are pieces one after another. -/
theorem tiles_iff_forall₂ {α : Type} {G : List UInt8 → α → Prop} {offset : Nat} {p : List UInt8}
    {as : List α} : Tiles (fun _ => G) offset p as ↔
      ∃ pieces, p = pieces.flatten ∧ List.Forall₂ G pieces as := by
  constructor
  · intro h
    induction h with
    | nil => exact ⟨[], rfl, .nil⟩
    | cons hG _ ih =>
        obtain ⟨pieces, rfl, hpieces⟩ := ih
        exact ⟨_ :: pieces, rfl, .cons hG hpieces⟩
  · rintro ⟨pieces, rfl, h⟩
    induction h generalizing offset with
    | nil => exact .nil
    | cons hG _ ih => exact .cons hG ih

namespace Tiles

variable {α : Type} {F F' : Format α} {offset : Nat} {p : List UInt8} {as : List α}

theorem eq_nil (h : Tiles F offset p []) : p = [] := by
  cases h
  rfl

/-- The bytes before an item, its own, and those after it. -/
theorem of_getElem? (h : Tiles F offset p as) :
    ∀ {i : Nat} {a : α}, as[i]? = some a → ∃ q s t, p = q ++ (s ++ t) ∧
      Tiles F offset q (as.take i) ∧ F (offset + q.length) s a ∧
      Tiles F (offset + q.length + s.length) t (as.drop (i + 1)) := by
  induction h with
  | nil => intro i a ha; simp at ha
  | @cons offset p q a as hF ht ih =>
      intro i b hb
      cases i with
      | zero =>
          rw [List.getElem?_cons_zero] at hb
          cases hb
          exact ⟨[], p, q, rfl, .nil, hF, ht⟩
      | succ i =>
          rw [List.getElem?_cons_succ] at hb
          obtain ⟨q', s, t, rfl, hq', hs, ht'⟩ := ih hb
          refine ⟨p ++ q', s, t, by simp, .cons hF hq', ?_, ?_⟩
          · rwa [List.length_append, ← Nat.add_assoc]
          · rwa [List.length_append, ← Nat.add_assoc]

/-- Only the stretch that is tiled matters. -/
theorem imp (h : Tiles F offset p as)
    (hF : ∀ o q a, offset ≤ o → o + q.length ≤ offset + p.length → F o q a → F' o q a) :
    Tiles F' offset p as := by
  induction h with
  | nil => exact .nil
  | @cons offset p q a as hp _ ih =>
      refine .cons (hF _ _ _ (Nat.le_refl _) (by simp) hp) (ih fun o s b ho hs => hF o s b ?_ ?_)
      · omega
      · rw [List.length_append]
        omega

end Tiles

namespace Reader

variable {ε ε' α β : Type} {order : ByteOrder}

/-- The reader succeeds exactly on bytes that begin with some in the format,
takes those and yields what they stand for. -/
def Accepts (r : Reader ε α) (order : ByteOrder) (F : Format α) : Prop :=
  ∀ c : Cursor, c.order = order → c.Within → ∀ a c',
    r c = .ok a c' ↔ ∃ p, p <+: c.unread ∧ F c.offset p a ∧ c' = c.advance p.length

theorem Accepts.congr {r : Reader ε α} {F F' : Format α} (h : r.Accepts order F)
    (hF : ∀ offset p a, F offset p a ↔ F' offset p a) : r.Accepts order F' := by
  intro c hc hw a c'
  rw [h c hc hw]
  constructor
  · rintro ⟨p, hp, hF', hc'⟩
    exact ⟨p, hp, (hF _ _ _).mp hF', hc'⟩
  · rintro ⟨p, hp, hF', hc'⟩
    exact ⟨p, hp, (hF _ _ _).mpr hF', hc'⟩

/-! ## Sequencing -/

theorem append_isPrefix_iff {p q l : List UInt8} :
    p ++ q <+: l ↔ p <+: l ∧ q <+: l.drop p.length := by
  constructor
  · rintro ⟨t, rfl⟩
    rw [List.append_assoc, List.drop_left]
    exact ⟨List.prefix_append _ _, List.prefix_append _ _⟩
  · rintro ⟨⟨s, rfl⟩, hq⟩
    rw [List.drop_left] at hq
    exact (List.prefix_append_right_inj p).mpr hq

theorem bind_eq_ok_iff {r : Reader ε α} {k : α → Reader ε β} {c c'' : Cursor} {b : β} :
    (r >>= k) c = .ok b c'' ↔ ∃ a c', r c = .ok a c' ∧ k a c' = .ok b c'' := by
  show EStateM.bind r k c = _ ↔ _
  unfold EStateM.bind
  cases r c with
  | error e c₁ => exact ⟨nofun, nofun⟩
  | ok a c₁ =>
      constructor
      · intro h
        exact ⟨a, c₁, rfl, h⟩
      · rintro ⟨a', c', hx, h⟩
        cases hx
        exact h

theorem bind_of_ok {r : Reader ε α} {k : α → Reader ε β} {c c' : Cursor} {a : α}
    (h : r c = .ok a c') : (r >>= k) c = k a c' := by
  show EStateM.bind r k c = _
  simp only [EStateM.bind, h]

theorem bind_of_error {r : Reader ε α} {k : α → Reader ε β} {c c' : Cursor} {e : ε}
    (h : r c = .error e c') : (r >>= k) c = .error e c' := by
  show EStateM.bind r k c = _
  simp only [EStateM.bind, h]

theorem map_of_ok {r : Reader ε α} {f : α → β} {c c' : Cursor} {a : α} (h : r c = .ok a c') :
    (f <$> r) c = .ok (f a) c' := by
  show EStateM.map f r c = _
  simp only [EStateM.map, h]

theorem map_of_error {r : Reader ε α} {f : α → β} {c c' : Cursor} {e : ε}
    (h : r c = .error e c') : (f <$> r) c = .error e c' := by
  show EStateM.map f r c = _
  simp only [EStateM.map, h]

theorem map_eq_ok_iff {r : Reader ε α} {f : α → β} {c c' : Cursor} {b : β} :
    (f <$> r) c = .ok b c' ↔ ∃ a, r c = .ok a c' ∧ f a = b := by
  cases hr : r c with
  | error e c₁ =>
      rw [map_of_error hr]
      exact ⟨nofun, nofun⟩
  | ok a c₁ =>
      rw [map_of_ok hr]
      constructor
      · intro h
        cases h
        exact ⟨a, rfl, rfl⟩
      · rintro ⟨a', hx, rfl⟩
        cases hx
        rfl

theorem accepts_pure (a : α) :
    (pure a : Reader ε α).Accepts order (fun _ p b => p = [] ∧ b = a) := by
  intro c _ _ b c'
  constructor
  · intro h
    cases h
    exact ⟨[], List.nil_prefix, ⟨rfl, rfl⟩, by simp⟩
  · rintro ⟨p, _, ⟨rfl, rfl⟩, rfl⟩
    simp only [List.length_nil, Cursor.advance_zero]
    rfl

theorem Accepts.bind {r : Reader ε α} {k : α → Reader ε β} {F : Format α}
    {G : α → Format β} (hr : r.Accepts order F) (hk : ∀ a, (k a).Accepts order (G a)) :
    (r >>= k).Accepts order
      (fun offset p b => ∃ q s a, p = q ++ s ∧ F offset q a ∧ G a (offset + q.length) s b) := by
  intro c hc hw b c''
  rw [bind_eq_ok_iff]
  constructor
  · rintro ⟨a, c', h1, h2⟩
    obtain ⟨q, hq, hF, rfl⟩ := (hr c hc hw a c').mp h1
    obtain ⟨s, hs, hG, rfl⟩ := (hk a (c.advance q.length) hc (hw.advance hq) b c'').mp h2
    exact ⟨q ++ s, append_isPrefix_iff.mpr ⟨hq, hs⟩, ⟨q, s, a, rfl, hF, hG⟩, by simp⟩
  · rintro ⟨_, hp, ⟨q, s, a, rfl, hF, hG⟩, rfl⟩
    obtain ⟨hq, hs⟩ := append_isPrefix_iff.mp hp
    refine ⟨a, c.advance q.length, (hr c hc hw a _).mpr ⟨q, hq, hF, rfl⟩, ?_⟩
    exact (hk a (c.advance q.length) hc (hw.advance hq) b _).mpr ⟨s, hs, hG, by simp⟩

theorem Accepts.map {r : Reader ε α} {F : Format α} (h : r.Accepts order F) (f : α → β) :
    (f <$> r).Accepts order (fun offset p b => ∃ a, F offset p a ∧ f a = b) := by
  intro c hc hw b c'
  rw [map_eq_ok_iff]
  constructor
  · rintro ⟨a, hr, rfl⟩
    obtain ⟨p, hp, hF, hc'⟩ := (h c hc hw a c').mp hr
    exact ⟨p, hp, ⟨a, hF, rfl⟩, hc'⟩
  · rintro ⟨p, hp, ⟨a, hF, hab⟩, hc'⟩
    exact ⟨a, (h c hc hw a c').mpr ⟨p, hp, hF, hc'⟩, hab⟩

theorem mapError_eq_ok_iff {r : Reader ε α} {f : ε → ε'} {c c' : Cursor} {a : α} :
    r.mapError f c = .ok a c' ↔ r c = .ok a c' := by
  unfold mapError
  cases r c with
  | error e c₁ => exact ⟨nofun, nofun⟩
  | ok b c₁ => simp only [EStateM.Result.ok.injEq]

theorem Accepts.mapError {r : Reader ε α} {F : Format α} (h : r.Accepts order F) (f : ε → ε') :
    (r.mapError f).Accepts order F := by
  intro c hc hw a c'
  rw [mapError_eq_ok_iff]
  exact h c hc hw a c'

/-- A reader that looks at its own offset first. -/
theorem accepts_at_offset {k : Nat → Reader ε α} {G : Nat → Format α}
    (hk : ∀ offset, (k offset).Accepts order (G offset)) :
    (get >>= fun c : Cursor => k c.offset : Reader ε α).Accepts order
      (fun offset p a => G offset offset p a) := by
  intro c hc hw a c'
  exact hk c.offset c hc hw a c'

theorem lift_eq_ok_iff {x : Except ε α} {c c' : Cursor} {a : α} :
    (liftM x : Reader ε α) c = .ok a c' ↔ x = .ok a ∧ c' = c := by
  cases x with
  | error e => exact ⟨nofun, nofun⟩
  | ok b =>
      constructor
      · intro h
        cases h
        exact ⟨rfl, rfl⟩
      · rintro ⟨h, rfl⟩
        cases h
        rfl

/-- A result that needs no bytes. -/
theorem accepts_lift (x : Except ε α) :
    (liftM x : Reader ε α).Accepts order (fun _ p a => p = [] ∧ x = .ok a) := by
  intro c _ _ a c'
  rw [lift_eq_ok_iff]
  constructor
  · rintro ⟨hx, rfl⟩
    exact ⟨[], List.nil_prefix, ⟨rfl, hx⟩, by simp⟩
  · rintro ⟨p, _, ⟨rfl, hx⟩, rfl⟩
    exact ⟨hx, by simp⟩

/-! ## The plain reads -/

theorem accepts_block (size : Nat) :
    (block size).Accepts order (fun _ p a => p.length = size ∧ a = p) := by
  intro c _ hw a c'
  have hstop := hw.stop_eq
  simp only [block]
  split
  case isTrue h =>
      constructor
      · intro hok
        cases hok
        have hlen : (c.unread.take size).length = size := by
          rw [List.length_take]
          omega
        exact ⟨c.unread.take size, List.take_prefix _ _, ⟨hlen, rfl⟩, by rw [hlen]⟩
      · rintro ⟨p, hp, ⟨rfl, rfl⟩, rfl⟩
        rw [List.prefix_iff_eq_take.mp hp, List.length_take,
          Nat.min_eq_left hp.length_le]
  case isFalse h =>
      refine ⟨nofun, ?_⟩
      rintro ⟨p, hp, ⟨rfl, -⟩, -⟩
      exact absurd hp.length_le (by omega)

theorem number_eq (width : Nat) (c : Cursor) :
    number width c = if c.offset + width ≤ c.stop then
      .ok (c.order.value (c.unread.take width)) (c.advance width)
      else .error ⟨c.offset, width⟩ c := by
  show (block width >>= fun p => pure (c.order.value p) : Reader OutOfBounds Nat) c = _
  by_cases hwithin : c.offset + width ≤ c.stop
  · rw [if_pos hwithin]
    exact bind_of_ok (if_pos hwithin)
  · rw [if_neg hwithin]
    exact bind_of_error (if_neg hwithin)

theorem accepts_number (width : Nat) :
    (number width).Accepts order (fun _ p n => p.length = width ∧ n = order.value p) := by
  intro c hc hw n c'
  have h := ((accepts_block width).map order.value) c hc hw n c'
  have hrun : number width c = (order.value <$> block width : Reader OutOfBounds Nat) c := by
    rw [← hc]
    rfl
  rw [hrun, h]
  constructor
  · rintro ⟨p, hp, ⟨a, ⟨hlen, rfl⟩, rfl⟩, hc'⟩
    exact ⟨_, hp, ⟨hlen, rfl⟩, hc'⟩
  · rintro ⟨p, hp, ⟨hlen, rfl⟩, hc'⟩
    exact ⟨p, hp, ⟨p, ⟨hlen, rfl⟩, rfl⟩, hc'⟩

/-- A number read in its own width and put into a machine word. -/
theorem accepts_word (width : Nat) (f : Nat → α) :
    (f <$> number width).Accepts order (fun _ p a => p.length = width ∧ a = f (order.value p)) := by
  refine ((accepts_number width).map f).congr ?_
  intro _ p a
  constructor
  · rintro ⟨n, ⟨hlen, rfl⟩, rfl⟩
    exact ⟨hlen, rfl⟩
  · rintro ⟨hlen, rfl⟩
    exact ⟨_, ⟨hlen, rfl⟩, rfl⟩

theorem takeWhile_ne_zero_append {p : List UInt8} (hp : 0 ∉ p) (rest : List UInt8) :
    (p ++ 0 :: rest).takeWhile (· != 0) = p := by
  rw [List.takeWhile_append_of_pos]
  · simp
  · intro b hb
    have hne : b ≠ 0 := fun h => hp (h ▸ hb)
    simpa using hne

/-- A string stops at its first zero, which is taken too but is not part of the
text. -/
theorem string_eq_ok_iff {c c' : Cursor} {text : String} :
    string c = .ok text c' ↔ ∃ q t, c.unread = q ++ 0 :: t ∧ 0 ∉ q ∧
      text = Utf8.text q ∧ c' = c.advance (q.length + 1) := by
  by_cases hmem : (0 : UInt8) ∈ c.unread
  · obtain ⟨q, t, ht, hq⟩ := List.eq_append_cons_of_mem hmem
    have htake : c.unread.takeWhile (· != 0) = q := ht ▸ takeWhile_ne_zero_append hq t
    have hlt : q.length < c.unread.length := by simp [ht]
    have hrun : string c = .ok (Utf8.text q) (c.advance (q.length + 1)) := by
      simp only [string, htake, if_pos hlt]
    rw [hrun]
    constructor
    · intro h
      cases h
      exact ⟨q, t, ht, hq, rfl, rfl⟩
    · rintro ⟨q', t', ht', hq', rfl, rfl⟩
      rw [ht', takeWhile_ne_zero_append hq'] at htake
      rw [htake]
  · have htake : c.unread.takeWhile (· != 0) = c.unread := by
      have hall : ∀ b ∈ c.unread, (b != 0) = true := by
        intro b hb
        have hne : b ≠ 0 := fun h => hmem (h ▸ hb)
        simpa using hne
      rw [← List.append_nil c.unread, List.takeWhile_append_of_pos hall, List.takeWhile_nil]
    have hrun : string c = .error ⟨c.offset, c.unread.length + 1⟩ c := by
      simp only [string, htake, Nat.lt_irrefl, if_false]
    rw [hrun]
    refine ⟨nofun, ?_⟩
    rintro ⟨q, t, ht, -⟩
    exact absurd (by simp [ht]) hmem

theorem accepts_string :
    string.Accepts order (fun _ p s => ∃ q, p = q ++ [0] ∧ 0 ∉ q ∧ s = Utf8.text q) := by
  intro c _ _ s c'
  rw [string_eq_ok_iff]
  constructor
  · rintro ⟨q, t, ht, hq, rfl, rfl⟩
    exact ⟨q ++ [0], ⟨t, by simp [ht]⟩, ⟨q, rfl, hq, rfl⟩, by simp⟩
  · rintro ⟨_, ⟨t, ht⟩, ⟨q, rfl, hq, rfl⟩, rfl⟩
    exact ⟨q, t, by simp [← ht], hq, rfl, by simp⟩

/-! ## Reading to the end -/

/-- An item reader that accepts a format until fewer than `least` bytes are
left, and then yields nothing.  No item is empty. -/
structure AcceptsUntil (item : Reader ε (Option α)) (order : ByteOrder) (least : Nat)
    (F : Format α) : Prop where
  none_iff : ∀ c : Cursor, c.order = order → c.Within → ∀ c',
    item c = .ok none c' ↔ c.unread.length < least ∧ c' = c
  some_iff : ∀ c : Cursor, c.order = order → c.Within → ∀ a c',
    item c = .ok (some a) c' ↔ ∃ p, p <+: c.unread ∧ F c.offset p a ∧ c' = c.advance p.length
  ne_nil : ∀ {offset p a}, F offset p a → p ≠ []

section Collect

variable {item : Reader ε (Option α)} {least : Nat} {F : Format α} {c c' : Cursor}

/-- Given more rounds than bytes, such a reader stops of its own accord. -/
theorem AcceptsUntil.tiles_of_rounds (h : AcceptsUntil item order least F) :
    ∀ (fuel : Nat) {found out : List α} (c : Cursor), c.order = order → c.Within →
      c.unread.length < fuel → rounds item fuel found c = .ok out c' →
        ∃ p as, p <+: c.unread ∧ Tiles F c.offset p as ∧ out = as.reverse ++ found ∧
          c' = c.advance p.length ∧ c'.unread.length < least
  | 0, _, _, _, _, _, hfuel, _ => absurd hfuel (Nat.not_lt_zero _)
  | fuel + 1, found, out, c, hc, hw, hfuel, hok => by
      simp only [rounds] at hok
      split at hok
      case h_1 e he => cases hok
      case h_2 c₁ he =>
          obtain ⟨hless, rfl⟩ := (h.none_iff c hc hw c₁).mp he
          cases hok
          exact ⟨[], [], List.nil_prefix, .nil, rfl, by simp, hless⟩
      case h_3 a c₁ he =>
          obtain ⟨p, hp, hF, rfl⟩ := (h.some_iff c hc hw a c₁).mp he
          have hpos : 0 < p.length := List.length_pos_iff.mpr (h.ne_nil hF)
          have hle := hp.length_le
          have hfuel' : (c.advance p.length).unread.length < fuel := by
            simp only [Cursor.unread_advance, List.length_drop]
            omega
          obtain ⟨q, as, hq, ht, rfl, rfl, hless⟩ :=
            h.tiles_of_rounds fuel (c.advance p.length) hc (hw.advance hp) hfuel' hok
          exact ⟨p ++ q, a :: as, append_isPrefix_iff.mpr ⟨hp, hq⟩, .cons hF ht,
            by simp, by simp, hless⟩

/-- A tiling up to the last bytes is read, item by item. -/
theorem AcceptsUntil.rounds_of_tiles (h : AcceptsUntil item order least F)
    {offset : Nat} {p : List UInt8} {as : List α} (ht : Tiles F offset p as) :
    ∀ (fuel : Nat) (found : List α) (c : Cursor), c.order = order → c.Within →
      c.offset = offset → p <+: c.unread → p.length < fuel →
      (c.advance p.length).unread.length < least →
        rounds item fuel found c = .ok (as.reverse ++ found) (c.advance p.length) := by
  induction ht with
  | nil =>
      intro fuel found c hc hw _ _ hfuel hless
      have hless' : c.unread.length < least := by simpa using hless
      obtain ⟨fuel, rfl⟩ := Nat.exists_eq_add_one_of_ne_zero (Nat.ne_of_gt hfuel)
      simp [rounds, (h.none_iff c hc hw c).mpr ⟨hless', rfl⟩]
  | @cons offset p q a as hF _ ih =>
      intro fuel found c hc hw hoff hpq hfuel hless
      subst hoff
      obtain ⟨hp, hq⟩ := append_isPrefix_iff.mp hpq
      have hpos : 0 < p.length := List.length_pos_iff.mpr (h.ne_nil hF)
      rw [List.length_append] at hfuel hless
      obtain ⟨fuel, rfl⟩ := Nat.exists_eq_add_one_of_ne_zero (Nat.ne_zero_of_lt hfuel)
      have hitem := (h.some_iff c hc hw a _).mpr ⟨p, hp, hF, rfl⟩
      have hrest := ih fuel (a :: found) (c.advance p.length) hc (hw.advance hp) rfl hq (by omega)
        (by simpa using hless)
      simp only [rounds, hitem, hrest]
      simp

/-- Collecting such items reads a tiling that leaves fewer than `least` bytes. -/
theorem AcceptsUntil.collect_eq_ok_iff (h : AcceptsUntil item order least F)
    (hc : c.order = order) (hw : c.Within) {as : List α} :
    collect item c = .ok as c' ↔
      ∃ p, p <+: c.unread ∧ Tiles F c.offset p as ∧
        c' = c.advance p.length ∧ c'.unread.length < least := by
  have hfuel : c.unread.length < c.remaining + 1 := by
    rw [c.remaining_eq]
    exact Nat.lt_succ_self _
  rw [collect, map_eq_ok_iff]
  constructor
  · rintro ⟨found, hr, rfl⟩
    obtain ⟨p, as, hp, ht, hout, hc', hless⟩ := h.tiles_of_rounds _ c hc hw hfuel hr
    rw [hout, List.append_nil, List.reverse_reverse]
    exact ⟨p, hp, ht, hc', hless⟩
  · rintro ⟨p, hp, ht, rfl, hless⟩
    have hle := hp.length_le
    refine ⟨_, h.rounds_of_tiles ht _ [] c hc hw rfl hp (by omega) hless, ?_⟩
    rw [List.append_nil, List.reverse_reverse]

/-- A reader that yields an image of what another one yields. -/
theorem AcceptsUntil.map {item' : Reader ε (Option β)} {f : α → β}
    (h : AcceptsUntil item order least F)
    (hitem : ∀ c : Cursor, c.order = order → c.Within → ∀ x c',
      item' c = .ok x c' ↔ ∃ y, item c = .ok y c' ∧ y.map f = x) :
    AcceptsUntil item' order least (fun offset p b => ∃ a, F offset p a ∧ f a = b) where
  none_iff c hc hw c' := by
    rw [hitem c hc hw, ← h.none_iff c hc hw]
    constructor
    · rintro ⟨y, hy, hnone⟩
      rwa [Option.map_eq_none_iff.mp hnone] at hy
    · intro hnone
      exact ⟨none, hnone, rfl⟩
  some_iff c hc hw b c' := by
    rw [hitem c hc hw]
    constructor
    · rintro ⟨y, hy, hsome⟩
      obtain ⟨a, rfl, rfl⟩ := Option.map_eq_some_iff.mp hsome
      obtain ⟨p, hp, hF, hc'⟩ := (h.some_iff c hc hw a c').mp hy
      exact ⟨p, hp, ⟨a, hF, rfl⟩, hc'⟩
    · rintro ⟨p, hp, ⟨a, hF, rfl⟩, hc'⟩
      exact ⟨some a, (h.some_iff c hc hw a c').mpr ⟨p, hp, hF, hc'⟩, rfl⟩
  ne_nil := fun ⟨_, hF, _⟩ => h.ne_nil hF

theorem on_eq_ok_iff {r : Reader ε α} {a : α} : r.on c = .ok a ↔ ∃ c', r c = .ok a c' := by
  unfold on attempt
  cases r c with
  | error e c₁ => exact ⟨nofun, nofun⟩
  | ok b c₁ =>
      constructor
      · intro h
        cases h
        exact ⟨c₁, rfl⟩
      · rintro ⟨c', h⟩
        cases h
        rfl

theorem AcceptsUntil.collect_on_eq_ok_iff (h : AcceptsUntil item order least F)
    (hc : c.order = order) (hw : c.Within) {as : List α} :
    (collect item).on c = .ok as ↔
      ∃ p t, c.unread = p ++ t ∧ t.length < least ∧ Tiles F c.offset p as := by
  rw [on_eq_ok_iff]
  constructor
  · rintro ⟨c', hok⟩
    obtain ⟨p, ⟨t, ht⟩, htiles, rfl, hless⟩ := (h.collect_eq_ok_iff hc hw).mp hok
    rw [Cursor.unread_advance, ← ht, List.drop_left] at hless
    exact ⟨p, t, ht.symm, hless, htiles⟩
  · rintro ⟨p, t, ht, hless, htiles⟩
    refine ⟨_, (h.collect_eq_ok_iff hc hw).mpr ⟨p, ⟨t, ht.symm⟩, htiles, rfl, ?_⟩⟩
    rwa [Cursor.unread_advance, ht, List.drop_left]

/-- The reader that `toEnd` collects. -/
theorem toEnd_eq (item : Reader ε α) :
    toEnd item = collect fun c => if c.atEnd then .ok none c else (some <$> item) c := by
  unfold toEnd
  congr 1
  funext c
  show (if c.atEnd = true then pure none else item >>= fun a => pure (some a) :
    Reader ε (Option α)) c = _
  split <;> rfl

theorem Accepts.untilEnd {item : Reader ε α} (h : item.Accepts order F)
    (hne : ∀ {offset p a}, F offset p a → p ≠ []) :
    AcceptsUntil (fun c => if c.atEnd then .ok none c else (some <$> item) c) order 1 F where
  none_iff c hc hw c' := by
    split
    case isTrue hend => simp [hw.atEnd_iff.mp hend, eq_comm]
    case isFalse hend =>
        rw [map_eq_ok_iff]
        refine ⟨nofun, ?_⟩
        rintro ⟨hless, -⟩
        exact absurd (hw.atEnd_iff.mpr hless) hend
  some_iff c hc hw a c' := by
    split
    case isTrue hend =>
        refine ⟨nofun, ?_⟩
        rintro ⟨p, hp, hF, -⟩
        have hpos : 0 < p.length := List.length_pos_iff.mpr (hne hF)
        exact absurd hp.length_le (by have := hw.atEnd_iff.mp hend; omega)
    case isFalse hend =>
        rw [map_eq_ok_iff, ← h c hc hw a c']
        constructor
        · rintro ⟨b, hb, hab⟩
          cases hab
          exact hb
        · intro ha
          exact ⟨a, ha, rfl⟩
  ne_nil := hne

/-- Items up to the end of the bytes tile all of them. -/
theorem Accepts.toEnd_on_eq_ok_iff {item : Reader ε α} (h : item.Accepts order F)
    (hne : ∀ {offset p a}, F offset p a → p ≠ [])
    (hc : c.order = order) (hw : c.Within) {as : List α} :
    (toEnd item).on c = .ok as ↔ Tiles F c.offset c.unread as := by
  rw [toEnd_eq, (h.untilEnd hne).collect_on_eq_ok_iff hc hw]
  constructor
  · rintro ⟨p, t, ht, hless, htiles⟩
    rw [List.length_eq_zero_iff.mp (Nat.lt_one_iff.mp hless), List.append_nil] at ht
    rwa [ht]
  · intro htiles
    exact ⟨c.unread, [], (List.append_nil _).symm, Nat.one_pos, htiles⟩

end Collect

end Reader
end DwarfOne
