/-
# `Proofs.Bytes.Failure` — where a reader fails

A reader that collects items fails on one of them, with that item's error.
Which one it is, is not in the error: `Reaches` counts the items taken before,
and `FailsAfter` says that the next one failed.  `collect_on_eq_error_iff_failsAfter`
and `toEnd_on_eq_error_iff` tie this to what the collecting reader returns, and
`collect_on_eq_error_iff` says it with the bytes: those before the failure are
tiled by the items taken.
-/
import DwarfOne.Proofs.Bytes.Format

namespace DwarfOne
namespace Reader

variable {ε α β : Type}

/-! ## Errors of readers put together -/

theorem on_of_ok {r : Reader ε α} {c c' : Cursor} {a : α} (h : r c = .ok a c') :
    r.on c = .ok a := by
  simp only [on, attempt, h]

theorem on_of_error {r : Reader ε α} {c c' : Cursor} {e : ε} (h : r c = .error e c') :
    r.on c = .error e := by
  simp only [on, attempt, h]

theorem on_eq_error_iff {r : Reader ε α} {c : Cursor} {e : ε} :
    r.on c = .error e ↔ ∃ c', r c = .error e c' := by
  cases hr : r c with
  | error e' c₁ =>
      rw [on_of_error hr]
      constructor
      · intro h
        cases h
        exact ⟨c₁, rfl⟩
      · rintro ⟨c', h⟩
        cases h
        rfl
  | ok a c₁ =>
      rw [on_of_ok hr]
      exact ⟨nofun, nofun⟩

theorem ne_ok_of_on_eq_error {r : Reader ε α} {c c' : Cursor} {e : ε} {a : α}
    (h : r.on c = .error e) : r c ≠ .ok a c' := by
  intro hok
  rw [on_of_ok hok] at h
  cases h

theorem bind_on_eq_error_iff {r : Reader ε α} {k : α → Reader ε β} {c : Cursor} {e : ε} :
    (r >>= k).on c = .error e ↔
      r.on c = .error e ∨ ∃ a c', r c = .ok a c' ∧ (k a).on c' = .error e := by
  cases hr : r c with
  | error e' c₁ =>
      rw [on_of_error (bind_of_error hr), on_of_error hr, Except.error.injEq, Except.error.injEq]
      constructor
      · exact .inl
      · rintro (h | ⟨a, c', h, -⟩)
        · exact h
        · cases h
  | ok a c₁ =>
      have hbind : (r >>= k).on c = (k a).on c₁ := by
        rw [on, attempt, bind_of_ok hr, on, attempt]
      rw [hbind, on_of_ok hr]
      constructor
      · intro h
        exact .inr ⟨a, c₁, rfl, h⟩
      · rintro (h | ⟨a', c', h, hk⟩)
        · cases h
        · cases h
          exact hk

theorem map_on_eq_error_iff {r : Reader ε α} {f : α → β} {c : Cursor} {e : ε} :
    (f <$> r).on c = .error e ↔ r.on c = .error e := by
  cases hr : r c with
  | error e' c₁ =>
      rw [on_of_error (map_of_error hr), on_of_error hr, Except.error.injEq, Except.error.injEq]
  | ok a c₁ =>
      rw [on_of_ok (map_of_ok hr), on_of_ok hr]
      exact ⟨nofun, nofun⟩

theorem mapError_of_error {ε' : Type} {r : Reader ε α} {f : ε → ε'} {c c' : Cursor} {e : ε}
    (h : r c = .error e c') : r.mapError f c = .error (f e) c' := by
  simp only [mapError, h]

theorem mapError_on_eq_error_iff {ε' : Type} {r : Reader ε α} {f : ε → ε'} {c : Cursor}
    {e : ε'} : (r.mapError f).on c = .error e ↔ ∃ cause, r.on c = .error cause ∧ f cause = e := by
  cases hr : r c with
  | error cause c₁ =>
      rw [on_of_error (mapError_of_error hr), on_of_error hr]
      constructor
      · intro h
        cases h
        exact ⟨cause, rfl, rfl⟩
      · rintro ⟨cause', h, rfl⟩
        cases h
        rfl
  | ok a c₁ =>
      rw [on_of_ok (mapError_eq_ok_iff.mpr hr), on_of_ok hr]
      exact ⟨nofun, nofun⟩

theorem lift_on_eq_error_iff {x : Except ε α} {c : Cursor} {e : ε} :
    (liftM x : Reader ε α).on c = .error e ↔ x = .error e := by
  cases x with
  | error e' =>
      constructor
      · intro h
        cases h
        rfl
      · intro h
        cases h
        rfl
  | ok a => exact ⟨nofun, nofun⟩

/-- A string that is not closed is said to be one byte short, and none of it is taken. -/
theorem string_eq_error_iff {c c' : Cursor} {e : OutOfBounds} :
    string c = .error e c' ↔ 0 ∉ c.unread ∧ e = ⟨c.offset, c.unread.length + 1⟩ ∧ c' = c := by
  by_cases hmem : (0 : UInt8) ∈ c.unread
  · obtain ⟨q, t, ht, hq⟩ := List.eq_append_cons_of_mem hmem
    have hok := string_eq_ok_iff.mpr ⟨q, t, ht, hq, rfl, rfl⟩
    rw [hok]
    constructor
    · intro h
      cases h
    · rintro ⟨hnot, -⟩
      exact absurd hmem hnot
  · have herror : string c = .error ⟨c.offset, c.unread.length + 1⟩ c := by
      cases hstring : string c with
      | ok a c₁ =>
          obtain ⟨q, t, ht, -⟩ := string_eq_ok_iff.mp hstring
          exact absurd (by simp [ht]) hmem
      | error e c₁ =>
          simp only [string] at hstring
          split at hstring
          · cases hstring
          · exact hstring.symm
    rw [herror]
    constructor
    · intro h
      cases h
      exact ⟨hmem, rfl, rfl⟩
    · rintro ⟨-, rfl, rfl⟩
      rfl

/-! ## Items taken before a failure -/

/-- An item reader takes `n` items in turn and so gets from one cursor to
another. -/
inductive Reaches (item : Reader ε (Option α)) : Nat → Cursor → Cursor → Prop
  | start {c : Cursor} : Reaches item 0 c c
  | next {n : Nat} {c c' c'' : Cursor} {a : α} :
      item c = .ok (some a) c' → Reaches item n c' c'' → Reaches item (n + 1) c c''

/-- An item reader fails after it has taken `n` items. -/
def FailsAfter (item : Reader ε (Option α)) (n : Nat) (c : Cursor) (e : ε) : Prop :=
  ∃ c', Reaches item n c c' ∧ item.on c' = .error e

section Collect

variable {item : Reader ε (Option α)} {order : ByteOrder} {least : Nat} {F : Format α}
  {c c' : Cursor} {e : ε}

theorem failsAfter_succ_iff {n : Nat} :
    FailsAfter item (n + 1) c e ↔ ∃ a c', item c = .ok (some a) c' ∧ FailsAfter item n c' e := by
  constructor
  · rintro ⟨c', hreach, hfail⟩
    cases hreach with
    | next hitem hrest => exact ⟨_, _, hitem, c', hrest, hfail⟩
  · rintro ⟨a, c₁, hitem, c', hrest, hfail⟩
    exact ⟨c', .next hitem hrest, hfail⟩

theorem failsAfter_zero_iff : FailsAfter item 0 c e ↔ item.on c = .error e := by
  constructor
  · rintro ⟨c', hreach, hfail⟩
    cases hreach with
    | start => exact hfail
  · intro hfail
    exact ⟨c, .start, hfail⟩

theorem Reaches.unique {n : Nat} {c' c'' : Cursor} (h : Reaches item n c c') :
    Reaches item n c c'' → c'' = c' := by
  induction h with
  | start =>
      intro h'
      cases h'
      rfl
  | next hitem _ ih =>
      intro h'
      cases h' with
      | next hitem' hrest =>
          rw [hitem] at hitem'
          cases hitem'
          exact ih hrest

section Rounds

variable {fuel : Nat} {found : List α}

theorem rounds_of_error (h : item c = .error e c') :
    rounds item (fuel + 1) found c = .error e c' := by
  simp only [rounds, h]

theorem rounds_of_none (h : item c = .ok none c') :
    rounds item (fuel + 1) found c = .ok found c' := by
  simp only [rounds, h]

theorem rounds_of_some {a : α} (h : item c = .ok (some a) c') :
    rounds item (fuel + 1) found c = rounds item fuel (a :: found) c' := by
  simp only [rounds, h]

end Rounds

/-- Rounds fail when an item does, if there are rounds enough to get to it. -/
theorem rounds_on_eq_error_iff : ∀ (fuel : Nat) (found : List α) (c : Cursor),
    (rounds item fuel found).on c = .error e ↔ ∃ n, n < fuel ∧ FailsAfter item n c e
  | 0, found, c => by
      constructor
      · intro h
        cases h
      · rintro ⟨n, hn, -⟩
        exact absurd hn (Nat.not_lt_zero n)
  | fuel + 1, found, c => by
      have hlater : ∀ n, n < fuel + 1 → FailsAfter item n c e →
          item.on c = .error e ∨ ∃ a c' m, item c = .ok (some a) c' ∧ m < fuel ∧
            FailsAfter item m c' e := by
        intro n hn hfail
        cases n with
        | zero => exact .inl (failsAfter_zero_iff.mp hfail)
        | succ n =>
            obtain ⟨a, c', hitem, hrest⟩ := failsAfter_succ_iff.mp hfail
            exact .inr ⟨a, c', n, hitem, Nat.lt_of_succ_lt_succ hn, hrest⟩
      cases hitem : item c with
      | error e' c₁ =>
          rw [on_of_error (rounds_of_error hitem)]
          constructor
          · intro h
            cases h
            exact ⟨0, Nat.succ_pos fuel, failsAfter_zero_iff.mpr (on_of_error hitem)⟩
          · rintro ⟨n, hn, hfail⟩
            rcases hlater n hn hfail with h | ⟨a, c', m, h, -⟩
            · rw [on_of_error hitem] at h
              cases h
              rfl
            · rw [hitem] at h
              cases h
      | ok x c₁ =>
          cases x with
          | none =>
              rw [on_of_ok (rounds_of_none hitem)]
              constructor
              · intro h
                cases h
              · rintro ⟨n, hn, hfail⟩
                rcases hlater n hn hfail with h | ⟨a, c', m, h, -⟩
                · rw [on_of_ok hitem] at h
                  cases h
                · rw [hitem] at h
                  cases h
          | some a =>
              have hstep : (rounds item (fuel + 1) found).on c =
                  (rounds item fuel (a :: found)).on c₁ := by
                rw [on, attempt, rounds_of_some hitem, on, attempt]
              rw [hstep, rounds_on_eq_error_iff fuel (a :: found) c₁]
              constructor
              · rintro ⟨n, hn, hfail⟩
                exact ⟨n + 1, Nat.succ_lt_succ hn, failsAfter_succ_iff.mpr ⟨a, c₁, hitem, hfail⟩⟩
              · rintro ⟨n, hn, hfail⟩
                rcases hlater n hn hfail with h | ⟨b, c', m, h, hm, hrest⟩
                · rw [on_of_ok hitem] at h
                  cases h
                · rw [hitem] at h
                  cases h
                  exact ⟨m, hm, hrest⟩

/-- An item reader yields some items in turn and so gets from one cursor to another. -/
inductive Yields (item : Reader ε (Option α)) : List α → Cursor → Cursor → Prop
  | nil {c : Cursor} : Yields item [] c c
  | cons {c c' c'' : Cursor} {a : α} {as : List α} :
      item c = .ok (some a) c' → Yields item as c' c'' → Yields item (a :: as) c c''

theorem Yields.append {c'' : Cursor} {as bs : List α} (h : Yields item as c c')
    (h' : Yields item bs c' c'') : Yields item (as ++ bs) c c'' := by
  induction h with
  | nil => exact h'
  | cons hitem _ ih => exact .cons hitem (ih h')

/-- Rounds go on where the items have been taken. -/
theorem Yields.rounds_eq {as : List α} (h : Yields item as c c') (fuel : Nat) (found : List α) :
    rounds item (as.length + fuel) found c = rounds item fuel (as.reverse ++ found) c' := by
  induction h generalizing found with
  | nil => rw [List.length_nil, Nat.zero_add, List.reverse_nil, List.nil_append]
  | @cons c c' c'' a as hitem _ ih =>
      have hfuel : (a :: as).length + fuel = as.length + fuel + 1 := by
        rw [List.length_cons]
        omega
      rw [hfuel, List.reverse_cons, List.append_assoc]
      rw [rounds_of_some hitem]
      exact ih (a :: found)

section Collected

variable {as : List α} (h : Yields item as c c') (hlength : as.length ≤ c.remaining)
include h hlength

theorem Yields.collect_eq_ok {c'' : Cursor} (hend : item c' = .ok none c'') :
    collect item c = .ok as c'' := by
  obtain ⟨fuel, hfuel⟩ : ∃ fuel, c.remaining + 1 = as.length + (fuel + 1) :=
    ⟨c.remaining - as.length, by omega⟩
  rw [collect, hfuel, map_of_ok ((h.rounds_eq (fuel + 1) []).trans (rounds_of_none hend)),
    List.append_nil, List.reverse_reverse]

theorem Yields.collect_on_eq_error (hend : item.on c' = .error e) :
    (collect item).on c = .error e := by
  obtain ⟨fuel, hfuel⟩ : ∃ fuel, c.remaining + 1 = as.length + (fuel + 1) :=
    ⟨c.remaining - as.length, by omega⟩
  obtain ⟨c'', hend⟩ := on_eq_error_iff.mp hend
  have hcollect : collect item c = .error e c'' := by
    rw [collect, hfuel]
    exact map_of_error ((h.rounds_eq (fuel + 1) []).trans (rounds_of_error hend))
  exact on_of_error hcollect

end Collected

/-- Each item takes a byte at least. -/
theorem AcceptsUntil.add_length_le (h : AcceptsUntil item order least F) {n : Nat}
    (hreach : Reaches item n c c') : c.order = order → c.Within →
      c'.order = order ∧ c'.Within ∧ n + c'.unread.length ≤ c.unread.length := by
  induction hreach with
  | start =>
      intro hc hw
      exact ⟨hc, hw, by omega⟩
  | @next n c c' c'' a hitem _ ih =>
      intro hc hw
      obtain ⟨p, hp, hF, rfl⟩ := (h.some_iff c hc hw a c').mp hitem
      obtain ⟨hc'', hw'', hle⟩ := ih hc (hw.advance hp)
      have hpos : 0 < p.length := List.length_pos_iff.mpr (h.ne_nil hF)
      have hprefix := hp.length_le
      rw [Cursor.unread_advance, List.length_drop] at hle
      exact ⟨hc'', hw'', by omega⟩

/-- A reader that gets as far with each item gets as far with all. -/
theorem AcceptsUntil.reaches_of_imp (h : AcceptsUntil item order least F)
    {item' : Reader ε (Option β)}
    (hitem : ∀ (c c' : Cursor) (a : α), c.order = order → c.Within →
      item c = .ok (some a) c' → ∃ b, item' c = .ok (some b) c')
    {n : Nat} (hreach : Reaches item n c c') : c.order = order → c.Within →
      Reaches item' n c c' := by
  induction hreach with
  | start =>
      intro _ _
      exact .start
  | @next n c c' c'' a hc' _ ih =>
      intro hc hw
      obtain ⟨p, hp, -, rfl⟩ := (h.some_iff c hc hw a c').mp hc'
      obtain ⟨b, hb⟩ := hitem c _ a hc hw hc'
      exact .next hb (ih hc (hw.advance hp))

/-- Collecting fails exactly when one of the items does. -/
theorem AcceptsUntil.collect_on_eq_error_iff_failsAfter (h : AcceptsUntil item order least F)
    (hc : c.order = order) (hw : c.Within) :
    (collect item).on c = .error e ↔ ∃ n, FailsAfter item n c e := by
  have hrounds : (collect item).on c = .error e ↔
      (rounds item (c.remaining + 1) []).on c = .error e := map_on_eq_error_iff
  rw [hrounds, rounds_on_eq_error_iff, c.remaining_eq]
  constructor
  · rintro ⟨n, -, hfail⟩
    exact ⟨n, hfail⟩
  · rintro ⟨n, hfail⟩
    obtain ⟨c', hreach, -⟩ := id hfail
    have hle := (h.add_length_le hreach hc hw).2.2
    exact ⟨n, by omega, hfail⟩

/-- The items taken so far tile the bytes behind them. -/
theorem AcceptsUntil.tiles_of_reaches (h : AcceptsUntil item order least F) {n : Nat}
    (hreach : Reaches item n c c') : c.order = order → c.Within →
      ∃ p as, p <+: c.unread ∧ Tiles F c.offset p as ∧ c' = c.advance p.length := by
  induction hreach with
  | start =>
      intro _ _
      exact ⟨[], [], List.nil_prefix, .nil, by simp⟩
  | @next n c c' c'' a hitem _ ih =>
      intro hc hw
      obtain ⟨p, hp, hF, rfl⟩ := (h.some_iff c hc hw a c').mp hitem
      obtain ⟨q, as, hq, htiles, rfl⟩ := ih hc (hw.advance hp)
      exact ⟨p ++ q, a :: as, append_isPrefix_iff.mpr ⟨hp, hq⟩, .cons hF htiles, by simp⟩

theorem AcceptsUntil.reaches_of_tiles (h : AcceptsUntil item order least F) {offset : Nat}
    {p : List UInt8} {as : List α} (htiles : Tiles F offset p as) :
    ∀ c : Cursor, c.order = order → c.Within → c.offset = offset → p <+: c.unread →
      ∃ n, Reaches item n c (c.advance p.length) := by
  induction htiles with
  | nil =>
      intro c _ _ _ _
      refine ⟨0, ?_⟩
      rw [List.length_nil, Cursor.advance_zero]
      exact .start
  | @cons offset p q a as hF _ ih =>
      intro c hc hw hoffset hpq
      subst hoffset
      obtain ⟨hp, hq⟩ := append_isPrefix_iff.mp hpq
      obtain ⟨n, hrest⟩ := ih (c.advance p.length) hc (hw.advance hp) rfl hq
      have hitem := (h.some_iff c hc hw a _).mpr ⟨p, hp, hF, rfl⟩
      refine ⟨n + 1, .next hitem ?_⟩
      rwa [List.length_append, ← Cursor.advance_advance]

/-- Collecting fails exactly when the item after some that tile the bytes does. -/
theorem AcceptsUntil.collect_on_eq_error_iff (h : AcceptsUntil item order least F)
    (hc : c.order = order) (hw : c.Within) :
    (collect item).on c = .error e ↔
      ∃ p as, p <+: c.unread ∧ Tiles F c.offset p as ∧
        item.on (c.advance p.length) = .error e := by
  rw [h.collect_on_eq_error_iff_failsAfter hc hw]
  constructor
  · rintro ⟨n, c', hreach, hfail⟩
    obtain ⟨p, as, hp, htiles, rfl⟩ := h.tiles_of_reaches hreach hc hw
    exact ⟨p, as, hp, htiles, hfail⟩
  · rintro ⟨p, as, hp, htiles, hfail⟩
    obtain ⟨n, hreach⟩ := h.reaches_of_tiles htiles c hc hw rfl hp
    exact ⟨n, _, hreach, hfail⟩

/-- The items of `toEnd`: one more as long as there are bytes. -/
def itemOrEnd (item : Reader ε α) : Reader ε (Option α) := fun c =>
  if c.atEnd then .ok none c else (some <$> item) c

theorem itemOrEnd_eq_some_iff {item : Reader ε α} {a : α} :
    itemOrEnd item c = .ok (some a) c' ↔ c.atEnd = false ∧ item c = .ok a c' := by
  simp only [itemOrEnd]
  cases hend : c.atEnd with
  | true => exact ⟨nofun, nofun⟩
  | false =>
      rw [if_neg Bool.false_ne_true, map_eq_ok_iff]
      constructor
      · rintro ⟨b, hb, hab⟩
        cases hab
        exact ⟨rfl, hb⟩
      · rintro ⟨-, ha⟩
        exact ⟨a, ha, rfl⟩

theorem itemOrEnd_on_eq_error_iff {item : Reader ε α} :
    (itemOrEnd item).on c = .error e ↔ c.atEnd = false ∧ item.on c = .error e := by
  cases hend : c.atEnd with
  | true =>
      have hnone : itemOrEnd item c = .ok none c := if_pos hend
      rw [on_of_ok hnone]
      exact ⟨nofun, nofun⟩
  | false =>
      have hsome : (itemOrEnd item).on c = (some <$> item).on c := by
        rw [on, attempt, itemOrEnd, if_neg (by rw [hend]; exact Bool.false_ne_true), on, attempt]
      rw [hsome, map_on_eq_error_iff]
      exact ⟨fun h => ⟨rfl, h⟩, And.right⟩

theorem Accepts.toEnd_on_eq_error_iff {item : Reader ε α} (h : item.Accepts order F)
    (hne : ∀ {offset p a}, F offset p a → p ≠ []) (hc : c.order = order) (hw : c.Within) :
    (toEnd item).on c = .error e ↔ ∃ n, FailsAfter (itemOrEnd item) n c e := by
  rw [toEnd_eq]
  exact (h.untilEnd hne).collect_on_eq_error_iff_failsAfter hc hw

end Collect

end Reader
end DwarfOne
