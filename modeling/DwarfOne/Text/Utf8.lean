/-
# `Text.Utf8` — text from bytes that may not be UTF-8

Names in an image are meant to be UTF-8 but need not be.  Bytes that cannot
be part of a character are replaced, one U+FFFD for each longest run that
starts like a character and then breaks off.  The scanner below looks at one
byte at a time; its state says which byte may come next.
-/
namespace DwarfOne.Utf8

/-- Where the scanner stands between two bytes. -/
inductive State
  | start
  /-- Inside a character: how many bytes it still needs, the least and the
  greatest byte that may come next, and the bits seen so far. -/
  | inside (needs : Nat) (least greatest : UInt8) (bits : Nat)
  deriving DecidableEq, Repr

def replacement : Char := '�'

/-- The first byte of a character.  A byte that starts none is replaced. -/
def first (b : UInt8) : List Char × State :=
  let n := b.toNat
  if n < 0x80 then ([Char.ofNat n], .start)
  else if n < 0xC2 then ([replacement], .start)
  else if n < 0xE0 then ([], .inside 1 0x80 0xBF (n - 0xC0))
  else if n = 0xE0 then ([], .inside 2 0xA0 0xBF 0)
  else if n = 0xED then ([], .inside 2 0x80 0x9F 0xD)
  else if n < 0xF0 then ([], .inside 2 0x80 0xBF (n - 0xE0))
  else if n = 0xF0 then ([], .inside 3 0x90 0xBF 0)
  else if n < 0xF4 then ([], .inside 3 0x80 0xBF (n - 0xF0))
  else if n = 0xF4 then ([], .inside 3 0x80 0x8F 4)
  else ([replacement], .start)

/-- The characters a byte completes, and the state after it. -/
def step : State → UInt8 → List Char × State
  | .start, b => first b
  | .inside needs least greatest bits, b =>
      if least ≤ b ∧ b ≤ greatest then
        let bits := bits * 64 + (b.toNat - 0x80)
        if needs = 1 then ([Char.ofNat bits], .start)
        else ([], .inside (needs - 1) 0x80 0xBF bits)
      else
        -- the character broke off before this byte, which starts afresh
        let (chars, state) := first b
        (replacement :: chars, state)

/-- The characters of the bytes, from a state. -/
def scan : State → List UInt8 → List Char
  | .start, [] => []
  | .inside .., [] => [replacement]
  | state, b :: bytes =>
      let (chars, state) := step state b
      chars ++ scan state bytes

/-- The text of the bytes. -/
def text (bytes : List UInt8) : String :=
  String.ofList (scan .start bytes)

end DwarfOne.Utf8
