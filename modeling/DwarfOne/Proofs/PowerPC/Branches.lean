/-
# `Proofs.PowerPC.Branches` — where branches go

The word of a branch holds how far it goes as a signed number of words, in 24 bits or, if the
branch is conditional, in 14.  Two flags below it say whether the number is the target itself
and whether the branch links.  `longBranch` and `shortBranch` lay such words out field by
field, and every word with one of the two opcodes is laid out so.

Decoding finds the fields again (`Holds`), the distance among them with its sign, and what is
printed is the target as a number of 32 bits.  A conditional branch may print its condition in
front of that, so its operands are read back from the text: the target is the last of them.
-/
import DwarfOne.PowerPC.Instruction
import DwarfOne.Proofs.Text.Numeral
import Mathlib.Algebra.Ring.Int.Defs
import Mathlib.Algebra.Ring.Nat

namespace DwarfOne
namespace PowerPC

open Numeral

/-! ## Words put together -/

/-- The word of a branch that goes so far. -/
def longBranch (distance : Int) (absolute link : Bool) : UInt32 :=
  .ofBitVec (18#6 ++ BitVec.ofInt 24 (distance / 4) ++ BitVec.ofBool absolute ++
    BitVec.ofBool link)

/-- The word of a branch that goes so far under a condition, which `bo` tells and `bi` takes from
the condition register. -/
def shortBranch (bo bi : BitVec 5) (distance : Int) (absolute link : Bool) : UInt32 :=
  .ofBitVec (16#6 ++ bo ++ bi ++ BitVec.ofInt 14 (distance / 4) ++ BitVec.ofBool absolute ++
    BitVec.ofBool link)

theorem toNat_append_eq {m n : Nat} (x : BitVec m) (y : BitVec n) :
    (x ++ y).toNat = x.toNat * 2 ^ n + y.toNat := by
  rw [BitVec.toNat_append, ← Nat.shiftLeft_add_eq_or_of_lt y.isLt, Nat.shiftLeft_eq]

/-- The low end of a branch: a field of some width and the two flags. -/
structure Holds (w : UInt32) (width field : Nat) (absolute link : Bool) : Prop where
  field_eq : bits w 2 width = field
  isAbsolute_eq : isAbsolute w = absolute
  lowBit_eq : lowBit w = link

theorem holds_of_toNat {w : UInt32} {width field front : Nat} {absolute link : Bool}
    (hfield : field < 2 ^ width)
    (h : w.toNat = 4 * (front * 2 ^ width + field) + 2 * absolute.toNat + link.toNat) :
    Holds w width field absolute link := by
  have habsolute : absolute.toNat ≤ 1 := Bool.toNat_le absolute
  have hlink : link.toNat ≤ 1 := Bool.toNat_le link
  constructor
  case field_eq =>
      have hdiv : w.toNat / 4 = field + 2 ^ width * front := by
        rw [h, Nat.mul_comm front]
        omega
      show w.toNat / 4 % 2 ^ width = field
      rw [hdiv, Nat.add_mul_mod_self_left, Nat.mod_eq_of_lt hfield]
  case isAbsolute_eq =>
      have hbit : w.toNat / 2 % 2 = absolute.toNat := by omega
      show decide (w.toNat / 2 % 2 = 1) = absolute
      rw [hbit]
      cases absolute <;> rfl
  case lowBit_eq =>
      have hbit : w.toNat / 1 % 2 = link.toNat := by omega
      show decide (w.toNat / 1 % 2 = 1) = link
      rw [hbit]
      cases link <;> rfl

theorem toNat_longBranch (distance : Int) (absolute link : Bool) :
    (longBranch distance absolute link).toNat =
      4 * (18 * 2 ^ 24 + (BitVec.ofInt 24 (distance / 4)).toNat) + 2 * absolute.toNat +
        link.toNat := by
  have hop : (18#6).toNat = 18 := rfl
  rw [longBranch, UInt32.toNat_ofBitVec]
  simp only [toNat_append_eq, BitVec.toNat_ofBool, hop]
  omega

theorem toNat_shortBranch (bo bi : BitVec 5) (distance : Int) (absolute link : Bool) :
    (shortBranch bo bi distance absolute link).toNat =
      4 * ((16 * 2 ^ 10 + bo.toNat * 2 ^ 5 + bi.toNat) * 2 ^ 14 +
        (BitVec.ofInt 14 (distance / 4)).toNat) + 2 * absolute.toNat + link.toNat := by
  have hop : (16#6).toNat = 16 := rfl
  rw [shortBranch, UInt32.toNat_ofBitVec]
  simp only [toNat_append_eq, BitVec.toNat_ofBool, hop]
  omega

/-! ## Distances -/

/-- The two zeros that the field leaves out do not change its sign. -/
theorem signExtend_mul_four {n : Nat} (x : BitVec n) :
    signExtend (n + 2) (x.toNat * 4) = 4 * x.toInt := by
  have hhalf : Nat.pow 2 (n + 2 - 1) = 2 * 2 ^ n := Nat.pow_succ'
  have hwhole : Nat.pow 2 (n + 2) = 4 * 2 ^ n := by
    rw [Nat.mul_comm]
    exact Nat.pow_add 2 n 2
  rw [signExtend, BitVec.toInt_eq_toNat_cond, hhalf, hwhole]
  by_cases hsmall : 2 * x.toNat < 2 ^ n
  · rw [if_pos hsmall, if_pos (by omega)]
    omega
  · rw [if_neg hsmall, if_neg (by omega)]
    omega

/-- A distance in whole words that is less than a bound, either way. -/
structure InReach (bound : Nat) (distance : Int) : Prop where
  aligned : 4 ∣ distance
  low : -bound ≤ distance
  high : distance < bound

/-- A whole number of words in reach is what the field holds. -/
theorem toInt_ofInt_div_four {n : Nat} {distance : Int} (haligned : 4 ∣ distance)
    (hlow : -((2 ^ (n + 2) : Nat) : Int) ≤ distance)
    (hhigh : distance < ((2 ^ (n + 2) : Nat) : Int)) :
    4 * (BitVec.ofInt (n + 1) (distance / 4)).toInt = distance := by
  have hreach : 2 ^ (n + 2) = 4 * 2 ^ n := by
    rw [Nat.pow_add, Nat.mul_comm]
  rw [hreach] at hlow hhigh
  rw [BitVec.toInt_ofInt, Nat.pow_succ', Int.bmod_eq_of_le (by omega) (by omega),
    Int.mul_ediv_cancel' haligned]

/-- Where a branch goes, as a number below 2^32. -/
def destination (address : UInt32) (absolute : Bool) (distance : Int) : Nat :=
  ((if absolute then distance else address.toNat + distance) % 2 ^ 32).toNat

theorem toNat_target {w address : UInt32} {absolute : Bool} {distance : Int}
    (h : isAbsolute w = absolute) :
    (target w address distance).toNat = destination address absolute distance := by
  rw [target, h, destination]
  cases absolute with
  | true =>
      simp only [if_true, UInt32.ofInt, UInt32.toNat_ofNat']
      omega
  | false =>
      simp only [Bool.false_eq_true, if_false, UInt32.ofInt, UInt32.toNat_add, UInt32.toNat_ofNat']
      omega

/-! ## Operands -/

/-- A text that can stand between the commas of a list of operands. -/
def Separable (text : String) : Prop :=
  ∀ c ∈ text.toList, c ≠ ',' ∧ c ≠ ' '

theorem separable_append {s t : String} (hs : Separable s) (ht : Separable t) :
    Separable (s ++ t) := by
  intro c hc
  rw [String.toList_append] at hc
  rcases List.mem_append.mp hc with hc | hc
  · exact hs c hc
  · exact ht c hc

theorem separable_decimal (n : Nat) : Separable (decimal n) := by
  have hall : ∀ d < 10, d.digitChar ≠ ',' ∧ d.digitChar ≠ ' ' := by decide
  intro c hc
  rw [decimal, String.toList_ofList] at hc
  obtain ⟨d, hd, rfl⟩ := exists_digitChar_of_mem (by decide) hc
  exact hall d hd

theorem forall_ne_of_notMem {cs : List Char} (hcomma : ',' ∉ cs) (hblank : ' ' ∉ cs) :
    ∀ c ∈ cs, c ≠ ',' ∧ c ≠ ' ' :=
  fun _ hc => ⟨fun h => hcomma (h ▸ hc), fun h => hblank (h ▸ hc)⟩

theorem separable_upperOffset (n : Nat) : Separable (upperOffset n) := by
  have hmark : Separable "0x" := forall_ne_of_notMem (by decide) (by decide)
  have hall : ∀ c ∈ upperDigits, c ≠ ',' ∧ c ≠ ' ' :=
    forall_ne_of_notMem (by decide) (by decide)
  refine separable_append hmark fun c hc => ?_
  exact hall c ((hexadecimal_upperHex n).mem c hc)

/-- The operands in a text: what stands between its commas, but for the blank behind each. -/
def readOperands (text : String) : List (List Char) :=
  (text.toList.splitOn ',').map (List.dropWhile (· == ' '))

theorem intercalate_pair {a b : Char} (l : List Char) (ls : List (List Char)) :
    [a, b].intercalate (l :: ls) = [a].intercalate (l :: ls.map (b :: ·)) := by
  induction ls generalizing l with
  | nil => rfl
  | cons l' ls ih => simp [ih]

theorem Separable.dropWhile_eq {text : String} (h : Separable text) :
    text.toList.dropWhile (· == ' ') = text.toList := by
  cases htext : text.toList with
  | nil => rfl
  | cons c cs =>
      have hc : c ≠ ' ' := (h c (htext ▸ List.mem_cons_self)).2
      rw [List.dropWhile_cons_of_neg (by simpa using hc)]

theorem readOperands_operands {parts : List String} (hne : parts ≠ [])
    (h : ∀ part ∈ parts, Separable part) :
    readOperands (operands parts) = parts.map String.toList := by
  obtain ⟨first, rest, rfl⟩ := List.exists_cons_of_ne_nil hne
  have hfirst := h first List.mem_cons_self
  have hrest := fun part hpart => h part (List.mem_cons_of_mem _ hpart)
  have hcut : (operands (first :: rest)).toList.splitOn ',' =
      first.toList :: (rest.map String.toList).map (' ' :: ·) := by
    have hseparator : ", ".toList = [',', ' '] := rfl
    rw [operands, String.toList_intercalate, List.map_cons, hseparator, intercalate_pair]
    refine List.splitOn_intercalate _ ?_ (List.cons_ne_nil _ _)
    intro l hl hcomma
    rcases List.mem_cons.mp hl with rfl | hl'
    · exact (hfirst _ hcomma).1 rfl
    · obtain ⟨_, hmap, rfl⟩ := List.mem_map.mp hl'
      obtain ⟨part, hpart, rfl⟩ := List.mem_map.mp hmap
      have hmem : ',' ∈ part.toList := by simpa using hcomma
      exact (hrest part hpart _ hmem).1 rfl
  rw [readOperands, hcut, List.map_cons, hfirst.dropWhile_eq, List.map_cons, List.map_map,
    List.map_map]
  congr 1
  exact List.map_congr_left fun part hpart => (hrest part hpart).dropWhile_eq

theorem getLast?_readOperands {front : List String} {last : String}
    (hfront : ∀ part ∈ front, Separable part) (hlast : Separable last) :
    (readOperands (operands (front ++ [last]))).getLast? = some last.toList := by
  have hall : ∀ part ∈ front ++ [last], Separable part := by
    intro part hpart
    rcases List.mem_append.mp hpart with hpart | hpart
    · exact hfront part hpart
    · rwa [List.mem_singleton.mp hpart]
  rw [readOperands_operands (List.append_ne_nil_of_right_ne_nil _ (List.cons_ne_nil _ _)) hall,
    List.map_append, List.map_singleton, List.getLast?_concat]

/-! ## Branches -/

section Long

variable {distance : Int} {absolute link : Bool} {address : UInt32}

theorem opcode_longBranch : opcode (longBranch distance absolute link) = 18 := by
  have hfield := (BitVec.ofInt 24 (distance / 4)).isLt
  have habsolute := Bool.toNat_le absolute
  have hlink := Bool.toNat_le link
  show (longBranch distance absolute link).toNat / 2 ^ 26 % 2 ^ 6 = 18
  rw [toNat_longBranch]
  omega

theorem holds_longBranch : Holds (longBranch distance absolute link) 24
    (BitVec.ofInt 24 (distance / 4)).toNat absolute link :=
  holds_of_toNat (BitVec.isLt _) (toNat_longBranch distance absolute link)

theorem decode_longBranch (hreach : InReach (2 ^ 25) distance) :
    decode (longBranch distance absolute link) address =
      { address, mnemonic := "b" ++ (if link then "l" else "") ++ (if absolute then "a" else "")
        operands := upperOffset (destination address absolute distance) } := by
  have hholds : Holds (longBranch distance absolute link) 24 _ absolute link := holds_longBranch
  have hdistance : longDisplacement (longBranch distance absolute link) = distance := by
    rw [longDisplacement, hholds.field_eq, signExtend_mul_four]
    exact toInt_ofInt_div_four hreach.aligned hreach.low hreach.high
  simp only [decode, decodeWord, opcode_longBranch, branch, hdistance,
    toNat_target hholds.isAbsolute_eq, hholds.isAbsolute_eq, hholds.lowBit_eq]
  cases absolute <;> cases link <;> rfl

end Long

section Short

variable {bo bi : BitVec 5} {distance : Int} {absolute link : Bool} {address : UInt32}

theorem opcode_shortBranch : opcode (shortBranch bo bi distance absolute link) = 16 := by
  have hbo := bo.isLt
  have hbi := bi.isLt
  have hfield := (BitVec.ofInt 14 (distance / 4)).isLt
  have habsolute := Bool.toNat_le absolute
  have hlink := Bool.toNat_le link
  show (shortBranch bo bi distance absolute link).toNat / 2 ^ 26 % 2 ^ 6 = 16
  rw [toNat_shortBranch]
  omega

theorem holds_shortBranch : Holds (shortBranch bo bi distance absolute link) 14
    (BitVec.ofInt 14 (distance / 4)).toNat absolute link :=
  holds_of_toNat (BitVec.isLt _) (toNat_shortBranch bo bi distance absolute link)

/-- Whatever the condition, the target comes last. -/
theorem exists_conditionalBranch_eq (w address : UInt32) : ∃ front,
    (∀ part ∈ front, Separable part) ∧ (conditionalBranch w address).2 =
      operands (front ++ [upperOffset (target w address (shortDisplacement w)).toNat]) := by
  have hcr : Separable "cr" := forall_ne_of_notMem (by decide) (by decide)
  cases hname : conditionalName? (rd w) (ra w) with
  | none =>
      refine ⟨[decimal (rd w), decimal (ra w)], ?_, ?_⟩
      · simp [separable_decimal]
      · simp only [conditionalBranch, hname]
        rfl
  | some name =>
      refine ⟨if 4 ≤ ra w ∧ (rd w = 12 ∨ rd w = 4) then ["cr" ++ decimal (ra w / 4)] else [],
        ?_, ?_⟩
      · intro part hpart
        split at hpart
        · rw [List.mem_singleton.mp hpart]
          exact separable_append hcr (separable_decimal _)
        · cases hpart
      · simp only [conditionalBranch, hname]

theorem exists_last_shortBranch (hreach : InReach (2 ^ 15) distance) : ∃ last,
    (readOperands (decode (shortBranch bo bi distance absolute link) address).operands).getLast? =
        some last ∧ IsUpperOffset (destination address absolute distance) last := by
  have hholds : Holds (shortBranch bo bi distance absolute link) 14 _ absolute link :=
    holds_shortBranch
  have hdistance : shortDisplacement (shortBranch bo bi distance absolute link) = distance := by
    rw [shortDisplacement, hholds.field_eq, signExtend_mul_four]
    exact toInt_ofInt_div_four hreach.aligned hreach.low hreach.high
  obtain ⟨front, hfront, hoperands⟩ :=
    exists_conditionalBranch_eq (shortBranch bo bi distance absolute link) address
  rw [hdistance, toNat_target hholds.isAbsolute_eq] at hoperands
  refine ⟨_, ?_, isUpperOffset_upperOffset _⟩
  have hdecode : (decode (shortBranch bo bi distance absolute link) address).operands =
      (conditionalBranch (shortBranch bo bi distance absolute link) address).2 := by
    simp only [decode, decodeWord, opcode_shortBranch]
  rw [hdecode, hoperands]
  exact getLast?_readOperands hfront (separable_upperOffset _)

end Short

/-! ## No other words -/

/-- What is in front of the field of a branch, the field and the flags make up the word. -/
theorem toNat_eq (w : UInt32) (width : Nat) : w.toNat =
    4 * (w.toNat / 4 / 2 ^ width * 2 ^ width + bits w 2 width) + 2 * (isAbsolute w).toNat +
      (lowBit w).toNat := by
  have hbit : ∀ n : Nat, (decide (n % 2 = 1)).toNat = n % 2 := by
    intro n
    rcases Nat.mod_two_eq_zero_or_one n with h | h <;> rw [h] <;> rfl
  have habsolute : (isAbsolute w).toNat = w.toNat / 2 % 2 := hbit _
  have hlink : (lowBit w).toNat = w.toNat / 1 % 2 := hbit _
  have hfield : w.toNat / 4 / 2 ^ width * 2 ^ width + bits w 2 width = w.toNat / 4 :=
    Nat.div_add_mod' _ _
  rw [hfield, habsolute, hlink]
  omega

theorem inReach_toInt {n : Nat} (x : BitVec (n + 1)) : InReach (2 ^ (n + 2)) (4 * x.toInt) := by
  have hlow := x.le_two_mul_toInt
  have hhigh := x.two_mul_toInt_lt
  have hreach : ((2 ^ (n + 2) : Nat) : Int) = 2 * 2 ^ (n + 1) := by
    rw [Nat.pow_succ', Int.natCast_mul, Int.natCast_pow]
    rfl
  refine ⟨Int.dvd_mul_right 4 _, ?_, ?_⟩
  · rw [hreach]
    omega
  · rw [hreach]
    omega

theorem ofInt_div_four {n : Nat} (x : BitVec n) : BitVec.ofInt n (4 * x.toInt / 4) = x := by
  rw [Int.mul_ediv_cancel_left _ (by decide), BitVec.ofInt_toInt]

theorem toNat_ofNat_bits (w : UInt32) (low count : Nat) :
    (BitVec.ofNat count (bits w low count)).toNat = bits w low count := by
  rw [BitVec.toNat_ofNat]
  exact Nat.mod_mod _ _

theorem exists_eq_longBranch {w : UInt32} (h : opcode w = 18) : ∃ distance absolute link,
    InReach (2 ^ 25) distance ∧ w = longBranch distance absolute link := by
  refine ⟨4 * (BitVec.ofNat 24 (bits w 2 24)).toInt, isAbsolute w, lowBit w, inReach_toInt _, ?_⟩
  have hw := w.toNat_lt
  have hfront : w.toNat / 4 / 2 ^ 24 = 18 := by
    have hop : w.toNat / 2 ^ 26 % 2 ^ 6 = 18 := h
    omega
  rw [← UInt32.toNat_inj, toNat_longBranch, ofInt_div_four, toNat_ofNat_bits, ← hfront]
  exact toNat_eq w 24

theorem exists_eq_shortBranch {w : UInt32} (h : opcode w = 16) :
    ∃ bo bi distance absolute link,
      InReach (2 ^ 15) distance ∧ w = shortBranch bo bi distance absolute link := by
  refine ⟨BitVec.ofNat 5 (rd w), BitVec.ofNat 5 (ra w), 4 * (BitVec.ofNat 14 (bits w 2 14)).toInt,
    isAbsolute w, lowBit w, inReach_toInt _, ?_⟩
  have hw := w.toNat_lt
  have hfront : w.toNat / 4 / 2 ^ 14 = 16 * 2 ^ 10 + rd w * 2 ^ 5 + ra w := by
    have hop : w.toNat / 2 ^ 26 % 2 ^ 6 = 16 := h
    have hbo : rd w = w.toNat / 2 ^ 21 % 2 ^ 5 := rfl
    have hbi : ra w = w.toNat / 2 ^ 16 % 2 ^ 5 := rfl
    omega
  rw [← UInt32.toNat_inj, toNat_shortBranch, ofInt_div_four, toNat_ofNat_bits, rd, ra,
    toNat_ofNat_bits, toNat_ofNat_bits]
  rw [rd, ra] at hfront
  rw [← hfront]
  exact toNat_eq w 14

/-- A branch prints where it goes: so far from its own address, modulo 2^32, or to the distance
itself if it is absolute.  Its name tells the flags.  A conditional branch prints its target
last.  There are no other words with the two opcodes. -/
theorem decode_branches (address : UInt32) :
    (∀ distance, InReach (2 ^ 25) distance → ∀ absolute link : Bool,
      (decode (longBranch distance absolute link) address).mnemonic =
          "b" ++ (if link then "l" else "") ++ (if absolute then "a" else "") ∧
        IsUpperOffset (destination address absolute distance)
          (decode (longBranch distance absolute link) address).operands.toList) ∧
    (∀ distance, InReach (2 ^ 15) distance → ∀ (bo bi : BitVec 5) (absolute link : Bool), ∃ last,
      (readOperands (decode (shortBranch bo bi distance absolute link) address).operands).getLast? =
          some last ∧
        IsUpperOffset (destination address absolute distance) last) ∧
    (∀ w, opcode w = 18 → ∃ distance absolute link,
      InReach (2 ^ 25) distance ∧ w = longBranch distance absolute link) ∧
    (∀ w, opcode w = 16 → ∃ bo bi distance absolute link,
      InReach (2 ^ 15) distance ∧ w = shortBranch bo bi distance absolute link) := by
  refine ⟨?_, ?_, fun w => exists_eq_longBranch, fun w => exists_eq_shortBranch⟩
  · intro distance hreach absolute link
    rw [decode_longBranch hreach]
    exact ⟨rfl, isUpperOffset_upperOffset _⟩
  · intro distance hreach bo bi absolute link
    exact exists_last_shortBranch hreach

/-- A branch that wraps around below address zero, and one to a negative address. -/
theorem decode_branches_below : InReach (2 ^ 25) (-0x20) ∧ InReach (2 ^ 15) (-0x8000) ∧
    (decode (longBranch (-0x20) false true) 0x10).mnemonic = "bl" ∧
      IsUpperOffset 0xfffffff0 (decode (longBranch (-0x20) false true) 0x10).operands.toList ∧
    ∃ last, (readOperands (decode (shortBranch 12 6 (-0x8000) true false) 0x10).operands).getLast? =
        some last ∧ IsUpperOffset 0xffff8000 last := by
  have hlong : InReach (2 ^ 25) (-0x20) := ⟨by decide, by decide, by decide⟩
  have hshort : InReach (2 ^ 15) (-0x8000) := ⟨by decide, by decide, by decide⟩
  obtain ⟨hbranch, hconditional, -, -⟩ := decode_branches 0x10
  obtain ⟨hmnemonic, htarget⟩ := hbranch (-0x20) hlong false true
  exact ⟨hlong, hshort, hmnemonic, htarget, hconditional (-0x8000) hshort 12 6 true false⟩

example : longBranch (-0x10) false true = 0x4bfffff1 ∧
    shortBranch 4 2 (-8) false false = 0x4082fff8 := by
  decide

end PowerPC
end DwarfOne
