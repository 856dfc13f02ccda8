/-
# `Proofs.Text.Numeral` — numbers written and read back

Digits are read from the left, each new one after what was read times the base, and the digits
of a number in a base end in its remainder: that gives back the number (`digits?_map_toDigits`).
The case of a digit does not matter, so one lemma does for both.  `Hexadecimal` also says which
of the two cases a text is in.

`literal?` is how a number in source text is read: an optional sign, then `0x` and hexadecimal
digits or just decimal ones.
-/
import DwarfOne.Text.Numeral

namespace DwarfOne.Numeral

/-! ## Digits -/

theorem digit?_digitChar {d : Nat} (hd : d < 16) {base : Nat} (hbase : d < base) :
    digit? base d.digitChar = some d ∧ digit? base d.digitChar.toUpper = some d := by
  have hall : ∀ d < 16, digit? 16 d.digitChar = some d ∧
      digit? 16 d.digitChar.toUpper = some d := by decide
  -- a smaller base only asks more of the value
  have hless : ∀ c, digit? 16 c = some d → digit? base c = some d := by
    intro c hc
    obtain ⟨hvalue, -⟩ := Option.filter_eq_some_iff.mp hc
    exact Option.filter_eq_some_iff.mpr ⟨hvalue, by simpa using hbase⟩
  exact ⟨hless _ (hall d hd).1, hless _ (hall d hd).2⟩

section Digits

variable {base : Nat}

theorem digits?_of_ne_nil {cs : List Char} (h : cs ≠ []) :
    digits? base cs = cs.foldlM (fun n c => (digit? base c).map (n * base + ·)) 0 := by
  cases cs with
  | nil => exact absurd rfl h
  | cons c cs => rfl

/-- Digits may be written in any way in which each is read as what it is. -/
theorem digits?_map_toDigits (hbase : 1 < base) {f : Char → Char}
    (hf : ∀ d < base, digit? base (f d.digitChar) = some d) (n : Nat) :
    digits? base ((Nat.toDigits base n).map f) = some n := by
  have hne : (Nat.toDigits base n).map f ≠ [] := by
    rw [Nat.toDigits_eq_if hbase]
    split <;> simp
  rw [digits?_of_ne_nil hne]
  clear hne
  induction n using Nat.strongRecOn with
  | ind n ih =>
  rw [Nat.toDigits_eq_if hbase]
  split
  case isTrue hlt => simp [hf n hlt]
  case isFalse hle =>
      have hrest := ih (n / base) (Nat.div_lt_self (by omega) hbase)
      have hdigit := hf (n % base) (Nat.mod_lt n (by omega))
      rw [List.map_append, List.foldlM_append, hrest]
      simp only [List.map_cons, List.map_nil, List.foldlM_cons, List.foldlM_nil, hdigit,
        Option.map_some, Option.bind_eq_bind, Option.bind_some, Option.pure_def]
      rw [Nat.mul_comm, Nat.div_add_mod]

end Digits

theorem digits?_decimal (n : Nat) : digits? 10 (decimal n).toList = some n := by
  have hdigits := digits?_map_toDigits (f := id) (by decide : 1 < 10)
    (fun d hd => (digit?_digitChar (by omega) hd).1) n
  rw [decimal, String.toList_ofList]
  rwa [List.map_id] at hdigits

theorem digits?_upperHex (n : Nat) : digits? 16 (upperHex n).toList = some n := by
  rw [upperHex, String.toList_ofList]
  exact digits?_map_toDigits (by decide) (fun _ hd => (digit?_digitChar hd hd).2) n

/-! ## Hexadecimal -/

def lowerDigits : List Char := "0123456789abcdef".toList

def upperDigits : List Char := "0123456789ABCDEF".toList

/-- Digits of an alphabet that stand for a number in hexadecimal. -/
structure Hexadecimal (alphabet : List Char) (n : Nat) (text : List Char) : Prop where
  mem : ∀ c ∈ text, c ∈ alphabet
  value : digits? 16 text = some n

theorem exists_digitChar_of_mem {base : Nat} (hbase : 1 < base) {n : Nat} {c : Char}
    (h : c ∈ Nat.toDigits base n) : ∃ d < base, c = d.digitChar := by
  induction n using Nat.strongRecOn with
  | ind n ih =>
  rw [Nat.toDigits_eq_if hbase] at h
  split at h
  case isTrue hlt => exact ⟨n, hlt, List.mem_singleton.mp h⟩
  case isFalse hle =>
      rcases List.mem_append.mp h with h | h
      · exact ih (n / base) (Nat.div_lt_self (by omega) hbase) h
      · exact ⟨n % base, Nat.mod_lt n (by omega), List.mem_singleton.mp h⟩

theorem hexadecimal_hex (n : Nat) : Hexadecimal lowerDigits n (hex n).toList := by
  have hall : ∀ d < 16, d.digitChar ∈ lowerDigits := by decide
  rw [hex, String.toList_ofList]
  constructor
  case mem =>
      intro c hc
      obtain ⟨d, hd, rfl⟩ := exists_digitChar_of_mem (by decide) hc
      exact hall d hd
  case value =>
      have hdigits := digits?_map_toDigits (f := id) (by decide : 1 < 16)
        (fun d hd => (digit?_digitChar hd hd).1) n
      rwa [List.map_id] at hdigits

/-- Zeros in front of digits do not count. -/
theorem digits?_replicate_append {base : Nat} (hbase : 0 < base) {cs : List Char} (h : cs ≠ [])
    (k : Nat) : digits? base (List.replicate k '0' ++ cs) = digits? base cs := by
  have hzero : digit? base '0' = some 0 := (digit?_digitChar (d := 0) (by decide) hbase).1
  rw [digits?_of_ne_nil h, digits?_of_ne_nil (List.append_ne_nil_of_right_ne_nil _ h)]
  induction k with
  | zero => rfl
  | succ k ih =>
      rw [List.replicate_succ, List.cons_append, List.foldlM_cons, hzero, Option.map_some,
        Option.bind_eq_bind, Option.bind_some, Nat.zero_mul, Nat.add_zero]
      exact ih

theorem hexadecimal_zeroPadded (width n : Nat) :
    Hexadecimal lowerDigits n (zeroPadded width (hex n)).toList := by
  obtain ⟨hmem, hvalue⟩ := hexadecimal_hex n
  have hne : (hex n).toList ≠ [] := by
    intro hnil
    rw [hnil] at hvalue
    cases hvalue
  rw [zeroPadded, String.toList_append, String.toList_ofList]
  constructor
  case mem =>
      intro c hc
      rcases List.mem_append.mp hc with hc | hc
      · rw [List.eq_of_mem_replicate hc]
        decide
      · exact hmem c hc
  case value => rw [digits?_replicate_append (by decide) hne, hvalue]

theorem hexadecimal_upperHex (n : Nat) : Hexadecimal upperDigits n (upperHex n).toList := by
  have hall : ∀ d < 16, d.digitChar.toUpper ∈ upperDigits := by decide
  refine ⟨?_, digits?_upperHex n⟩
  rw [upperHex, String.toList_ofList]
  intro c hc
  obtain ⟨digit, hdigit, rfl⟩ := List.mem_map.mp hc
  obtain ⟨d, hd, rfl⟩ := exists_digitChar_of_mem (by decide) hdigit
  exact hall d hd

/-- Only the number zero starts with a zero. -/
theorem exists_head?_toDigits {base : Nat} (hbase : 1 < base) (n : Nat) :
    ∃ d < base, (Nat.toDigits base n).head? = some d.digitChar ∧ (d = 0 → n = 0) := by
  induction n using Nat.strongRecOn with
  | ind n ih =>
  rw [Nat.toDigits_eq_if hbase]
  split
  case isTrue hlt => exact ⟨n, hlt, rfl, id⟩
  case isFalse hle =>
      obtain ⟨d, hd, hhead, hzero⟩ := ih (n / base) (Nat.div_lt_self (by omega) hbase)
      refine ⟨d, hd, by rw [List.head?_append, hhead, Option.some_or], fun h => ?_⟩
      have hpos : 0 < n / base := Nat.div_pos (by omega) (by omega)
      exact absurd (hzero h) (Nat.ne_of_gt hpos)

/-- `0x` and the digits of a number, in upper case and with no zeros in front. -/
def IsUpperOffset (n : Nat) (text : List Char) : Prop :=
  ∃ digits, text = '0' :: 'x' :: digits ∧ Hexadecimal upperDigits n digits ∧
    (digits.head? = some '0' → digits = ['0'])

theorem isUpperOffset_upperOffset (n : Nat) : IsUpperOffset n (upperOffset n).toList := by
  refine ⟨(upperHex n).toList, ?_, hexadecimal_upperHex n, fun hzero => ?_⟩
  · rw [upperOffset, String.toList_append]
    rfl
  · have hall : ∀ d < 16, d.digitChar.toUpper = '0' → d = 0 := by decide
    obtain ⟨d, hd, hhead, hn⟩ := exists_head?_toDigits (by decide : 1 < 16) n
    rw [upperHex, String.toList_ofList, List.head?_map, hhead] at hzero
    rw [hn (hall d hd (Option.some.inj hzero))]
    rfl

/-! ## Literals -/

def unsignedLiteral? : List Char → Option Nat
  | '0' :: 'x' :: cs => digits? 16 cs
  | cs => digits? 10 cs

/-- A number as it stands in source text. -/
def literal? : List Char → Option Int
  | '-' :: cs => (unsignedLiteral? cs).map fun (n : Nat) => -(n : Int)
  | cs => (unsignedLiteral? cs).map fun (n : Nat) => (n : Int)

theorem unsignedLiteral?_of_digits {cs : List Char} {n : Nat} (h : digits? 10 cs = some n) :
    unsignedLiteral? cs = some n := by
  unfold unsignedLiteral?
  split
  case h_1 cs => simp [digits?, digit?] at h
  case h_2 => exact h

theorem unsignedLiteral?_upperOffset (n : Nat) :
    unsignedLiteral? (upperOffset n).toList = some n := by
  rw [upperOffset, String.toList_append]
  exact digits?_upperHex n

/-- A number that has no sign. -/
theorem literal?_of_unsigned {cs : List Char} {n : Nat} (h : unsignedLiteral? cs = some n) :
    literal? cs = some (n : Int) := by
  unfold literal?
  split
  case h_1 cs => simp [unsignedLiteral?, digits?, digit?] at h
  case h_2 => rw [h, Option.map_some]

/-- A sign in front of a number, where the number is below zero. -/
theorem literal?_signed {text : Nat → String}
    (htext : ∀ n, unsignedLiteral? (text n).toList = some n) (n : Int) :
    literal? (if n < 0 then "-" ++ text n.natAbs else text n.natAbs).toList = some n := by
  split
  case isTrue hneg =>
      rw [String.toList_append]
      show (unsignedLiteral? (text n.natAbs).toList).map (fun (n : Nat) => -(n : Int)) = some n
      rw [htext, Option.map_some]
      congr 1
      omega
  case isFalse hpos =>
      rw [literal?_of_unsigned (htext _)]
      congr 1
      omega

theorem literal?_decimal (n : Int) : literal? (signed n).toList = some n :=
  literal?_signed (fun n => unsignedLiteral?_of_digits (digits?_decimal n)) n

example : literal? "-0x1F".toList = some (-31) ∧ literal? "-31".toList = some (-31) := by
  decide

end DwarfOne.Numeral
