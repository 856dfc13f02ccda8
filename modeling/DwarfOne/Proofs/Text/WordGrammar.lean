/-
# `Proofs.Text.WordGrammar` — the texts that are read as 32-bit numbers

The grammar stands on its own here, with no reader in it: `StandsFor` says what a character is
worth in a base, `Digits` what a row of them is, `Unsigned` puts up with a plus sign in front, and
`Denotes` takes the base from the mark before that.  No bound is part of it.

`readWord` accepts the texts of the grammar whose number is below `2 ^ 32`, and no others.  What is
read at each level is compared with the grammar at the same level, from single characters upwards.
The reader looks for a mark first, while the grammar does not ask a decimal number to be without
one.  The two agree because `x` and `X` are digits in neither base, and for the same reason no text
stands for two numbers (`Denotes.unique`).
-/
import Mathlib.Data.List.Forall2
import Mathlib.Data.Nat.Digits.Defs
import DwarfOne.Proofs.Text.Numeral

namespace DwarfOne.Numeral

/-! ## The grammar -/

/-- A character is worth `d` in a base.  Letters may be of either case. -/
def StandsFor (base : Nat) (c : Char) (d : Nat) : Prop :=
  d < base ∧ (lowerDigits[d]? = some c ∨ upperDigits[d]? = some c)

/-- One or more digits, of which the first counts most. -/
structure Digits (base : Nat) (cs : List Char) (n : Nat) : Prop where
  ne_nil : cs ≠ []
  value : ∃ ds, List.Forall₂ (StandsFor base) cs ds ∧ Nat.ofDigits base ds.reverse = n

/-- Digits after an optional plus sign. -/
inductive Unsigned (base : Nat) : List Char → Nat → Prop
  | bare {cs : List Char} {n : Nat} : Digits base cs n → Unsigned base cs n
  | plus {cs : List Char} {n : Nat} : Digits base cs n → Unsigned base ('+' :: cs) n

/-- The number that a text stands for, however large. -/
inductive Denotes : List Char → Nat → Prop
  | decimal {cs : List Char} {n : Nat} : Unsigned 10 cs n → Denotes cs n
  | lowerMark {cs : List Char} {n : Nat} : Unsigned 16 cs n → Denotes ('0' :: 'x' :: cs) n
  | upperMark {cs : List Char} {n : Nat} : Unsigned 16 cs n → Denotes ('0' :: 'X' :: cs) n

/-! ## Digits -/

theorem getElem?_digits {d : Nat} (hd : d < 16) :
    lowerDigits[d]? = some d.digitChar ∧ upperDigits[d]? = some d.digitChar.toUpper := by
  have hall : ∀ d < 16, lowerDigits[d]? = some d.digitChar ∧
      upperDigits[d]? = some d.digitChar.toUpper := by decide
  exact hall d hd

/-- A run of characters that stands in an alphabet, from a place on. -/
theorem getElem?_of_run {alphabet : List Char} (place : Nat) {first last c : Char}
    (hc : first ≤ c ∧ c ≤ last)
    (hrun : ∀ k ≤ last.toNat - first.toNat,
      alphabet[k + place]? = some (Char.ofNat (first.toNat + k))) :
    alphabet[c.toNat - first.toNat + place]? = some c := by
  have hfirst : first.toNat ≤ c.toNat := hc.1
  have hlast : c.toNat ≤ last.toNat := hc.2
  rw [hrun (c.toNat - first.toNat) (by omega), Nat.add_sub_cancel' hfirst, Char.ofNat_toNat]

theorem standsFor_of_digit? {base : Nat} {c : Char} {d : Nat} (h : digit? base c = some d) :
    StandsFor base c d := by
  obtain ⟨hvalue, hlt⟩ := Option.filter_eq_some_iff.mp h
  refine ⟨of_decide_eq_true hlt, ?_⟩
  -- the three runs of the reader, each in its alphabet
  split at hvalue
  · next hc =>
    cases hvalue
    exact .inl (getElem?_of_run 0 hc (by decide))
  · split at hvalue
    · next hc =>
      cases hvalue
      exact .inl (getElem?_of_run 10 hc (by decide))
    · split at hvalue
      · next hc =>
        cases hvalue
        exact .inr (getElem?_of_run 10 hc (by decide))
      · cases hvalue

theorem digit?_eq_some_iff {base : Nat} (hbase : base ≤ 16) {c : Char} {d : Nat} :
    digit? base c = some d ↔ StandsFor base c d := by
  constructor
  · exact standsFor_of_digit?
  · rintro ⟨hlt, hc⟩
    have hd : d < 16 := by omega
    obtain ⟨hlower, hupper⟩ := getElem?_digits hd
    rw [hlower, hupper, Option.some.injEq, Option.some.injEq] at hc
    rcases hc with rfl | rfl
    · exact (digit?_digitChar hd hlt).1
    · exact (digit?_digitChar hd hlt).2

section Readers

-- there are letters for the bases up to sixteen
variable {base : Nat} (hbase : base ≤ 16) {cs : List Char} {n : Nat}

include hbase

/-- What has been read is moved up by as many places as there are digits to come. -/
theorem foldlM_digit?_eq_some_iff {read : Nat} :
    cs.foldlM (fun n c => (digit? base c).map (n * base + ·)) read = some n ↔
      ∃ ds, List.Forall₂ (StandsFor base) cs ds ∧
        read * base ^ ds.length + Nat.ofDigits base ds.reverse = n := by
  induction cs generalizing read with
  | nil => simp [List.forall₂_nil_left_iff]
  | cons c cs ih =>
      have hstep (d : Nat) (ds : List Nat) :
          (read * base + d) * base ^ ds.length + Nat.ofDigits base ds.reverse =
            read * base ^ (d :: ds).length + Nat.ofDigits base (d :: ds).reverse := by
        rw [Nat.ofDigits_reverse_cons, List.length_cons]
        ring
      rw [List.foldlM_cons, Option.bind_eq_bind, Option.bind_eq_some_iff]
      constructor
      · rintro ⟨m, hm, hrest⟩
        obtain ⟨d, hd, rfl⟩ := Option.map_eq_some_iff.mp hm
        obtain ⟨ds, hds, hvalue⟩ := ih.mp hrest
        refine ⟨d :: ds, .cons ((digit?_eq_some_iff hbase).mp hd) hds, ?_⟩
        rw [← hstep, hvalue]
      · rintro ⟨_, hds, hvalue⟩
        obtain ⟨d, ds, hd, hrest, rfl⟩ := List.forall₂_cons_left_iff.mp hds
        refine ⟨read * base + d, ?_, ih.mpr ⟨ds, hrest, (hstep d ds).trans hvalue⟩⟩
        rw [(digit?_eq_some_iff hbase).mpr hd, Option.map_some]

theorem digits?_eq_some_iff : digits? base cs = some n ↔ Digits base cs n := by
  by_cases hne : cs = []
  · subst hne
    constructor
    · intro h
      cases h
    · intro h
      exact absurd rfl h.ne_nil
  · rw [digits?_of_ne_nil hne, foldlM_digit?_eq_some_iff hbase]
    simp only [Nat.zero_mul, Nat.zero_add]
    exact ⟨fun h => ⟨hne, h⟩, fun h => h.value⟩

/-- What is no digit does not stand among digits. -/
theorem Digits.notMem (h : Digits base cs n) {c : Char} (hc : digit? base c = none) : c ∉ cs := by
  intro hmem
  obtain ⟨ds, hds, -⟩ := h.value
  obtain ⟨i, hi, rfl⟩ := List.getElem_of_mem hmem
  have hdigit := (digit?_eq_some_iff hbase).mpr (hds.get hi (hds.length_eq ▸ hi))
  rw [List.get_eq_getElem, hc] at hdigit
  cases hdigit

/-! ## Signs and marks -/

theorem unsigned?_eq_some_iff : unsigned? base cs = some n ↔ Unsigned base cs n := by
  unfold unsigned?
  split
  · next cs =>
    rw [digits?_eq_some_iff hbase]
    constructor
    · exact .plus
    · intro h
      cases h with
      | bare h => exact absurd List.mem_cons_self (h.notMem hbase rfl)
      | plus h => exact h
  · next hplus =>
    rw [digits?_eq_some_iff hbase]
    constructor
    · exact .bare
    · intro h
      cases h with
      | bare h => exact h
      | plus h => exact absurd rfl (hplus _)

theorem Unsigned.unique {m : Nat} (h : Unsigned base cs m) (h' : Unsigned base cs n) : m = n := by
  rw [← unsigned?_eq_some_iff hbase] at h h'
  exact Option.some.inj (h.symm.trans h')

theorem Unsigned.notMem (h : Unsigned base cs n) {c : Char} (hc : digit? base c = none)
    (hplus : c ≠ '+') : c ∉ cs := by
  cases h with
  | bare h => exact h.notMem hbase hc
  | plus h => exact List.not_mem_cons_of_ne_of_not_mem hplus (h.notMem hbase hc)

end Readers

/-- After a mark nothing is left of the decimal reading, which would need the mark's letter to be
a digit. -/
theorem denotes_marked_iff {x : Char} (hx : x = 'x' ∨ x = 'X') {cs : List Char} {n : Nat} :
    Denotes ('0' :: x :: cs) n ↔ Unsigned 16 cs n := by
  constructor
  · intro h
    cases h with
    | decimal h =>
        have hno : digit? 10 x = none ∧ x ≠ '+' := by
          rcases hx with rfl | rfl <;> decide
        have hmem : x ∈ '0' :: x :: cs := by simp
        exact absurd hmem (h.notMem (by decide) hno.1 hno.2)
    | lowerMark h => exact h
    | upperMark h => exact h
  · intro h
    rcases hx with rfl | rfl
    · exact .lowerMark h
    · exact .upperMark h

/-- No text stands for two numbers. -/
theorem Denotes.unique {cs : List Char} {m n : Nat} (h : Denotes cs m) (h' : Denotes cs n) :
    m = n := by
  cases h with
  | lowerMark h => exact h.unique (by decide) ((denotes_marked_iff (.inl rfl)).mp h')
  | upperMark h => exact h.unique (by decide) ((denotes_marked_iff (.inr rfl)).mp h')
  | decimal h =>
      cases h' with
      | decimal h' => exact h.unique (by decide) h'
      | lowerMark h' =>
          have hmarked := (denotes_marked_iff (.inl rfl)).mp (.decimal h)
          exact hmarked.unique (by decide) h'
      | upperMark h' =>
          have hmarked := (denotes_marked_iff (.inr rfl)).mp (.decimal h)
          exact hmarked.unique (by decide) h'

/-! ## Words -/

theorem map_ofNat_filter_eq_some_iff {value : Option Nat} {n : UInt32} :
    (value.filter (· < UInt32.size)).map UInt32.ofNat = some n ↔ value = some n.toNat := by
  constructor
  · intro h
    obtain ⟨m, hm, rfl⟩ := Option.map_eq_some_iff.mp h
    obtain ⟨hvalue, hlt⟩ := Option.filter_eq_some_iff.mp hm
    rw [hvalue, UInt32.toNat_ofNat_of_lt' (of_decide_eq_true hlt)]
  · rintro rfl
    have hkept : (some n.toNat).filter (· < UInt32.size) = some n.toNat :=
      Option.filter_eq_some_iff.mpr ⟨rfl, decide_eq_true n.toNat_lt⟩
    rw [hkept, Option.map_some, UInt32.ofNat_toNat]

theorem word?_eq_some_iff {text : String} {n : UInt32} :
    word? text = some n ↔ Denotes text.toList n.toNat := by
  unfold word?
  rw [map_ofNat_filter_eq_some_iff]
  generalize text.toList = cs
  split
  · next cs => rw [unsigned?_eq_some_iff (by decide), denotes_marked_iff (.inl rfl)]
  · next cs => rw [unsigned?_eq_some_iff (by decide), denotes_marked_iff (.inr rfl)]
  · next hlower hupper =>
    rw [unsigned?_eq_some_iff (by decide)]
    constructor
    · exact .decimal
    · intro h
      cases h with
      | decimal h => exact h
      | lowerMark h => exact absurd rfl (hlower _)
      | upperMark h => exact absurd rfl (hupper _)

/-- A text is refused where there is no number in it, and where the number is too large. -/
theorem word?_eq_none_iff {text : String} :
    word? text = none ↔
      (∀ n, ¬ Denotes text.toList n) ∨ ∃ n, 2 ^ 32 ≤ n ∧ Denotes text.toList n := by
  constructor
  · intro h
    by_cases hsome : ∃ n, Denotes text.toList n
    · obtain ⟨n, hn⟩ := hsome
      refine .inr ⟨n, Nat.le_of_not_lt fun hlt => ?_, hn⟩
      have hword : word? text = some (UInt32.ofNat n) := by
        rw [word?_eq_some_iff, UInt32.toNat_ofNat_of_lt' hlt]
        exact hn
      rw [h] at hword
      cases hword
    · exact .inl fun n hn => hsome ⟨n, hn⟩
  · intro h
    rw [Option.eq_none_iff_forall_ne_some]
    intro n hn
    rw [word?_eq_some_iff] at hn
    rcases h with hnone | ⟨m, hlarge, hm⟩
    · exact hnone _ hn
    · rw [hm.unique hn] at hlarge
      exact absurd n.toNat_lt (Nat.not_lt_of_le hlarge)

theorem readWord_eq_ok_iff {text : String} {n : UInt32} :
    readWord text = .ok n ↔ word? text = some n := by
  unfold readWord
  split
  · next h => rw [h, Except.ok.injEq, Option.some.injEq]
  · next h => simp [h]

theorem readWord_eq_error_iff {text message : String} :
    readWord text = .error message ↔ word? text = none ∧ message = notANumber text := by
  unfold readWord
  split
  · next h => simp [h]
  · next h => simp [h, eq_comm]

theorem denotes_decimal (n : Nat) : Denotes (decimal n).toList n :=
  .decimal (.bare ((digits?_eq_some_iff (by decide)).mp (digits?_decimal n)))

theorem denotes_offset (n : Nat) : Denotes (offset n).toList n := by
  rw [offset, String.toList_append]
  exact .lowerMark (.bare ((digits?_eq_some_iff (by decide)).mp (hexadecimal_hex n).value))

/-- The texts of the grammar are read as the numbers they stand for.  A text that stands for none,
or for one that is too large, is refused by name.  A number is read back from either way of writing
it. -/
theorem readWord_grammar :
    (∀ text n, readWord text = .ok n ↔ Denotes text.toList n.toNat) ∧
    (∀ text message, readWord text = .error message ↔
      ((∀ n, ¬ Denotes text.toList n) ∨ ∃ n, 2 ^ 32 ≤ n ∧ Denotes text.toList n) ∧
        message = notANumber text) ∧
    ∀ n : UInt32, readWord (decimal n.toNat) = .ok n ∧ readWord (offset n.toNat) = .ok n := by
  have haccepted (text : String) (n : UInt32) :
      readWord text = .ok n ↔ Denotes text.toList n.toNat :=
    readWord_eq_ok_iff.trans word?_eq_some_iff
  refine ⟨haccepted, fun text message => ?_, fun n => ⟨?_, ?_⟩⟩
  · rw [readWord_eq_error_iff, word?_eq_none_iff]
  · exact (haccepted _ n).mpr (denotes_decimal n.toNat)
  · exact (haccepted _ n).mpr (denotes_offset n.toNat)

example : word? "0X+00000002a" = some 42 ∧ word? "+0x2a" = none ∧ word? "0x+" = none ∧
    word? "4294967295" = some 0xffffffff ∧ word? "4294967296" = none := by
  decide

end DwarfOne.Numeral
