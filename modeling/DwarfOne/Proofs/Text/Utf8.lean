/-
# `Proofs.Text.Utf8` — text that is UTF-8 is kept as it is

`Utf8.text` repairs what is not UTF-8.  `text_encode` says that it repairs
nothing else: the bytes of a text give the text back.  The proof goes character
by character; `scan_utf8EncodeChar` runs the scanner over the bytes of one, with
a case for each of the four sizes.
-/
import DwarfOne.Text.Utf8

namespace DwarfOne
namespace Utf8

/-- The bytes of a text. -/
def encode (s : String) : List UInt8 :=
  s.toList.flatMap String.utf8EncodeChar

theorem scan_start_cons (b : UInt8) (rest : List UInt8) :
    scan .start (b :: rest) = (first b).1 ++ scan (first b).2 rest := rfl

/-- A byte that may come next and completes the character. -/
theorem scan_inside_last {least greatest b : UInt8} {bits : Nat} {rest : List UInt8}
    (hl : least ≤ b) (hg : b ≤ greatest) :
    scan (.inside 1 least greatest bits) (b :: rest) =
      Char.ofNat (bits * 64 + (b.toNat - 0x80)) :: scan .start rest := by
  simp [scan, step, hl, hg]

/-- A byte that may come next, with more to follow. -/
theorem scan_inside_more {needs : Nat} {least greatest b : UInt8} {bits : Nat}
    {rest : List UInt8} (hl : least ≤ b) (hg : b ≤ greatest) :
    scan (.inside (needs + 2) least greatest bits) (b :: rest) =
      scan (.inside (needs + 1) 0x80 0xBF (bits * 64 + (b.toNat - 0x80))) rest := by
  simp [scan, step, hl, hg]

section Lead

variable {b : UInt8}

theorem first_one (h : b.toNat < 0x80) : first b = ([Char.ofNat b.toNat], .start) := by
  simp [first, h]

theorem first_two (h : 0xC2 ≤ b.toNat) (h' : b.toNat < 0xE0) :
    first b = ([], .inside 1 0x80 0xBF (b.toNat - 0xC0)) := by
  simp only [first]
  rw [if_neg (by omega), if_neg (by omega), if_pos h']

/-- Of a character of three bytes, the first alone may leave out a range for
the second: what is shorter after `E0`, the surrogates after `ED`. -/
theorem first_three (h : 0xE0 ≤ b.toNat) (h' : b.toNat < 0xF0) :
    first b = ([], .inside 2 (if b.toNat = 0xE0 then 0xA0 else 0x80)
      (if b.toNat = 0xED then 0x9F else 0xBF) (b.toNat - 0xE0)) := by
  simp only [first]
  rw [if_neg (by omega), if_neg (by omega), if_neg (by omega)]
  by_cases h0 : b.toNat = 0xE0
  · simp [h0]
  · by_cases hd : b.toNat = 0xED
    · simp [hd]
    · simp [h0, hd, h']

/-- Of a character of four bytes: what is shorter after `F0`, and after `F4`
what is no longer a character. -/
theorem first_four (h : 0xF0 ≤ b.toNat) (h' : b.toNat < 0xF5) :
    first b = ([], .inside 3 (if b.toNat = 0xF0 then 0x90 else 0x80)
      (if b.toNat = 0xF4 then 0x8F else 0xBF) (b.toNat - 0xF0)) := by
  simp only [first]
  rw [if_neg (by omega), if_neg (by omega), if_neg (by omega), if_neg (by omega),
    if_neg (by omega), if_neg (by omega)]
  by_cases h0 : b.toNat = 0xF0
  · simp [h0]
  · by_cases hd : b.toNat = 0xF4
    · simp [hd]
    · have hlt : b.toNat < 0xF4 := by omega
      simp [h0, hd, hlt]

end Lead

theorem toNat_ofNat {n : Nat} (h : n < 256) : (UInt8.ofNat n).toNat = n := by
  rw [UInt8.toNat_ofNat']
  exact Nat.mod_eq_of_lt h

/-- A byte that only continues a character holds six bits of it. -/
theorem toNat_continuation (n : Nat) : (UInt8.ofNat (n % 64 + 128)).toNat = n % 64 + 128 :=
  toNat_ofNat (by omega)

theorem le_continuation (n : Nat) : 0x80 ≤ UInt8.ofNat (n % 64 + 128) := by
  rw [UInt8.le_iff_toNat_le, toNat_continuation]
  exact Nat.le_add_left _ _

theorem continuation_le (n : Nat) : UInt8.ofNat (n % 64 + 128) ≤ 0xBF := by
  rw [UInt8.le_iff_toNat_le, toNat_continuation]
  show _ ≤ 0xBF
  omega

theorem scan_two {v : Nat} (hv : 0x80 ≤ v) (hv' : v < 0x800) (rest : List UInt8) :
    scan .start (UInt8.ofNat (v / 64 % 32 + 192) :: UInt8.ofNat (v % 64 + 128) :: rest) =
      Char.ofNat v :: scan .start rest := by
  have hlead : (UInt8.ofNat (v / 64 % 32 + 192)).toNat = v / 64 + 192 := by
    rw [toNat_ofNat (by omega)]
    omega
  have hbits : (v / 64 + 192 - 0xC0) * 64 + (v % 64 + 128 - 0x80) = v := by omega
  rw [scan_start_cons, first_two (by omega) (by omega), List.nil_append,
    scan_inside_last (le_continuation v) (continuation_le v), hlead, toNat_continuation, hbits]

theorem scan_three {v : Nat} (hv : 0x800 ≤ v) (hv' : v < 0x10000)
    (hsurrogate : v < 0xD800 ∨ 0xDFFF < v) (rest : List UInt8) :
    scan .start (UInt8.ofNat (v / 4096 % 16 + 224) :: UInt8.ofNat (v / 64 % 64 + 128) ::
      UInt8.ofNat (v % 64 + 128) :: rest) = Char.ofNat v :: scan .start rest := by
  have hlead : (UInt8.ofNat (v / 4096 % 16 + 224)).toNat = v / 4096 + 224 := by
    rw [toNat_ofNat (by omega)]
    omega
  have hnext := toNat_continuation (v / 64)
  have hbits : ((v / 4096 + 224 - 0xE0) * 64 + (v / 64 % 64 + 128 - 0x80)) * 64 +
      (v % 64 + 128 - 0x80) = v := by omega
  have hleast : (if v / 4096 + 224 = 0xE0 then 0xA0 else 0x80 : UInt8) ≤
      UInt8.ofNat (v / 64 % 64 + 128) := by
    rw [UInt8.le_iff_toNat_le, hnext]
    split
    · show 0xA0 ≤ _
      omega
    · show 0x80 ≤ _
      omega
  have hgreatest : UInt8.ofNat (v / 64 % 64 + 128) ≤
      (if v / 4096 + 224 = 0xED then 0x9F else 0xBF : UInt8) := by
    rw [UInt8.le_iff_toNat_le, hnext]
    split
    · show _ ≤ 0x9F
      omega
    · show _ ≤ 0xBF
      omega
  rw [scan_start_cons, first_three (by omega) (by omega), List.nil_append, hlead,
    scan_inside_more hleast hgreatest, scan_inside_last (le_continuation v) (continuation_le v),
    hnext, toNat_continuation, hbits]

theorem scan_four {v : Nat} (hv : 0x10000 ≤ v) (hv' : v < 0x110000) (rest : List UInt8) :
    scan .start (UInt8.ofNat (v / 262144 % 8 + 240) :: UInt8.ofNat (v / 4096 % 64 + 128) ::
      UInt8.ofNat (v / 64 % 64 + 128) :: UInt8.ofNat (v % 64 + 128) :: rest) =
      Char.ofNat v :: scan .start rest := by
  have hlead : (UInt8.ofNat (v / 262144 % 8 + 240)).toNat = v / 262144 + 240 := by
    rw [toNat_ofNat (by omega)]
    omega
  have hnext := toNat_continuation (v / 4096)
  have hbits : (((v / 262144 + 240 - 0xF0) * 64 + (v / 4096 % 64 + 128 - 0x80)) * 64 +
      (v / 64 % 64 + 128 - 0x80)) * 64 + (v % 64 + 128 - 0x80) = v := by omega
  have hleast : (if v / 262144 + 240 = 0xF0 then 0x90 else 0x80 : UInt8) ≤
      UInt8.ofNat (v / 4096 % 64 + 128) := by
    rw [UInt8.le_iff_toNat_le, hnext]
    split
    · show 0x90 ≤ _
      omega
    · show 0x80 ≤ _
      omega
  have hgreatest : UInt8.ofNat (v / 4096 % 64 + 128) ≤
      (if v / 262144 + 240 = 0xF4 then 0x8F else 0xBF : UInt8) := by
    rw [UInt8.le_iff_toNat_le, hnext]
    split
    · show _ ≤ 0x8F
      omega
    · show _ ≤ 0xBF
      omega
  rw [scan_start_cons, first_four (by omega) (by omega), List.nil_append, hlead,
    scan_inside_more hleast hgreatest,
    scan_inside_more (le_continuation (v / 64)) (continuation_le (v / 64)),
    scan_inside_last (le_continuation v) (continuation_le v), hnext, toNat_continuation,
    toNat_continuation, hbits]

/-- The bytes of one character yield it. -/
theorem scan_utf8EncodeChar (c : Char) (rest : List UInt8) :
    scan .start (String.utf8EncodeChar c ++ rest) = c :: scan .start rest := by
  have hvalid : c.val.toNat < 0xD800 ∨ 0xDFFF < c.val.toNat ∧ c.val.toNat < 0x110000 := c.valid
  have hc : Char.ofNat c.val.toNat = c := Char.ofNat_toNat c
  fun_cases String.utf8EncodeChar c with
  | case1 v h1 =>
      have hv : (UInt8.ofNat v).toNat = v := toNat_ofNat (by omega)
      rw [List.singleton_append, scan_start_cons, first_one (by omega), hv, hc]
      rfl
  | case2 v h1 h2 =>
      show scan .start (_ :: _ :: rest) = _
      rw [scan_two (by omega) (by omega), hc]
  | case3 v h1 h2 h3 =>
      show scan .start (_ :: _ :: _ :: rest) = _
      rw [scan_three (by omega) (by omega) (by omega), hc]
  | case4 v h1 h2 h3 =>
      show scan .start (_ :: _ :: _ :: _ :: rest) = _
      rw [scan_four (by omega) (by omega), hc]

theorem scan_encode : ∀ chars : List Char,
    scan .start (chars.flatMap String.utf8EncodeChar) = chars
  | [] => rfl
  | c :: chars => by rw [List.flatMap_cons, scan_utf8EncodeChar, scan_encode chars]

/-- The bytes of a text give the text back. -/
theorem text_encode (s : String) : text (encode s) = s := by
  rw [text, encode, scan_encode, String.ofList_toList]

/-- A character other than the zero character has no zero byte. -/
theorem zero_notMem_utf8EncodeChar {c : Char} (hc : c ≠ '\x00') :
    0 ∉ String.utf8EncodeChar c := by
  have hne : ∀ n, 0 < n → n < 256 → (0 : UInt8) ≠ UInt8.ofNat n := by
    intro n hpos hlt h
    have := congrArg UInt8.toNat h
    rw [toNat_ofNat hlt] at this
    exact absurd this (Nat.ne_of_lt hpos)
  have hv : c.val.toNat ≠ 0 := by
    intro h
    exact hc (by rw [← Char.ofNat_toNat c, Char.toNat, h])
  fun_cases String.utf8EncodeChar c with
  | case1 v h1 => simpa using hne v (by omega) (by omega)
  | case2 v h1 h2 =>
      simp only [List.mem_cons, List.not_mem_nil, or_false, not_or]
      exact ⟨hne _ (by omega) (by omega), hne _ (by omega) (by omega)⟩
  | case3 v h1 h2 h3 =>
      simp only [List.mem_cons, List.not_mem_nil, or_false, not_or]
      exact ⟨hne _ (by omega) (by omega), hne _ (by omega) (by omega),
        hne _ (by omega) (by omega)⟩
  | case4 v h1 h2 h3 =>
      simp only [List.mem_cons, List.not_mem_nil, or_false, not_or]
      exact ⟨hne _ (by omega) (by omega), hne _ (by omega) (by omega),
        hne _ (by omega) (by omega), hne _ (by omega) (by omega)⟩

theorem zero_notMem_encode {s : String} (h : '\x00' ∉ s.toList) : 0 ∉ encode s := by
  rw [encode, List.mem_flatMap]
  rintro ⟨c, hc, hzero⟩
  exact zero_notMem_utf8EncodeChar (fun h' => h (h' ▸ hc)) hzero

end Utf8
end DwarfOne
