/-
# `Text.Numeral` — how numbers are written and read

Counts are decimal.  Offsets and addresses are hexadecimal: lower case in
error messages and tables, upper case in comments and warnings.  The one
grammar read back is that of command line offsets, `readWord`.
-/
namespace DwarfOne.Numeral

def decimal (n : Nat) : String :=
  String.ofList (Nat.toDigits 10 n)

def signed (n : Int) : String :=
  if n < 0 then "-" ++ decimal n.natAbs else decimal n.natAbs

/-- Lower case hexadecimal digits without a base mark. -/
def hex (n : Nat) : String :=
  String.ofList (Nat.toDigits 16 n)

/-- Upper case hexadecimal digits without a base mark. -/
def upperHex (n : Nat) : String :=
  String.ofList ((Nat.toDigits 16 n).map Char.toUpper)

/-- `0x1f`. -/
def offset (n : Nat) : String :=
  "0x" ++ hex n

/-- `0x1F`. -/
def upperOffset (n : Nat) : String :=
  "0x" ++ upperHex n

/-- Zeros in front of the digits until they fill the width. -/
def zeroPadded (width : Nat) (digits : String) : String :=
  String.ofList (List.replicate (width - digits.length) '0') ++ digits

/-- Spaces after the text until it fills the width. -/
def padRight (width : Nat) (text : String) : String :=
  text ++ String.ofList (List.replicate (width - text.length) ' ')

/-! ## Reading -/

/-- The value of a digit, in either case, if it is one in the base. -/
def digit? (base : Nat) (c : Char) : Option Nat :=
  let value :=
    if '0' ≤ c ∧ c ≤ '9' then some (c.toNat - '0'.toNat)
    else if 'a' ≤ c ∧ c ≤ 'f' then some (c.toNat - 'a'.toNat + 10)
    else if 'A' ≤ c ∧ c ≤ 'F' then some (c.toNat - 'A'.toNat + 10)
    else none
  value.filter (· < base)

/-- One or more digits. -/
def digits? (base : Nat) : List Char → Option Nat
  | [] => none
  | cs => cs.foldlM (fun n c => (digit? base c).map (n * base + ·)) 0

/-- Digits after an optional plus sign. -/
def unsigned? (base : Nat) : List Char → Option Nat
  | '+' :: cs => digits? base cs
  | cs => digits? base cs

/-- A 32-bit number: hexadecimal after `0x` or `0X`, decimal otherwise. -/
def word? (text : String) : Option UInt32 :=
  let value :=
    match text.toList with
    | '0' :: 'x' :: cs => unsigned? 16 cs
    | '0' :: 'X' :: cs => unsigned? 16 cs
    | cs => unsigned? 10 cs
  (value.filter (· < UInt32.size)).map UInt32.ofNat

/-- A decimal number of at most 64 bits. -/
def count? (text : String) : Option Nat :=
  (unsigned? 10 text.toList).filter (· < UInt64.size)

/-- What is said of a text that `word?` refuses. -/
def notANumber (text : String) : String :=
  "`" ++ text ++ "` isn't a hex or decimal number"

/-- A 32-bit number, or why the text is none. -/
def readWord (text : String) : Except String UInt32 :=
  match word? text with
  | some n => .ok n
  | none => .error (notANumber text)

end DwarfOne.Numeral
