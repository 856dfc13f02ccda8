/-
# `Bytes.Cursor` — reading bytes in order

A cursor is a position in a byte string together with the bytes not read yet.
A plain read looks for the bytes it needs before it moves, and fails for want
of them.  `Reader ε` is a read that may also fail for reasons of its own, and
it may have moved by then: a failure comes with the cursor it leaves behind.
-/
import DwarfOne.Bytes.Order
import DwarfOne.Text.Numeral
import DwarfOne.Text.Utf8

namespace DwarfOne

/-- A read past the end of the bytes. -/
structure OutOfBounds where
  offset : Nat
  size : Nat
  deriving DecidableEq, Repr

def OutOfBounds.message (e : OutOfBounds) : String :=
  "read of " ++ Numeral.decimal e.size ++ " bytes at offset " ++
    Numeral.offset e.offset ++ " is out of bounds"

/-- A position, where the bytes stop, and the bytes between the two.  The
position may lie past the end; nothing is unread then. -/
structure Cursor where
  order : ByteOrder
  offset : Nat
  stop : Nat
  unread : List UInt8
  length_unread : unread.length = stop - offset

namespace Cursor

/-- A cursor at an offset of the bytes. -/
def ofBytes (order : ByteOrder) (bytes : List UInt8) (offset : Nat) : Cursor where
  order := order
  offset := offset
  stop := bytes.length
  unread := bytes.drop offset
  length_unread := by simp

/-- A cursor at an offset of a larger array that sees at most `size` bytes
from there.  Offsets stay those of the array. -/
def window (order : ByteOrder) (bytes : Array UInt8) (offset size : Nat) : Cursor where
  order := order
  offset := offset
  stop := min (offset + size) bytes.size
  unread := (bytes.extract offset (offset + size)).toList
  length_unread := by simp; omega

/-- The cursor past the next `size` bytes. -/
def advance (c : Cursor) (size : Nat) : Cursor where
  order := c.order
  offset := c.offset + size
  stop := c.stop
  unread := c.unread.drop size
  length_unread := by
    have := c.length_unread
    simp only [List.length_drop]
    omega

/-- The same bytes cut off `size` bytes from here. -/
def limit (c : Cursor) (size : Nat) : Cursor where
  order := c.order
  offset := c.offset
  stop := min (c.offset + size) c.stop
  unread := c.unread.take size
  length_unread := by
    have := c.length_unread
    simp only [List.length_take]
    omega

def remaining (c : Cursor) : Nat :=
  c.stop - c.offset

def atEnd (c : Cursor) : Bool :=
  c.stop ≤ c.offset

end Cursor

/-- A read from a cursor that may fail with an `ε`.  Either way it says where the
cursor is afterwards. -/
abbrev Reader (ε : Type) := EStateM ε Cursor

namespace Reader

/-- The same read with its failure put in other terms. -/
def mapError {ε ε' α : Type} (f : ε → ε') (r : Reader ε α) : Reader ε' α := fun c =>
  match r c with
  | .ok a c => .ok a c
  | .error e c => .error (f e) c

/-- Fails without reading. -/
def fail {ε α : Type} (e : ε) : Reader ε α :=
  fun c => .error e c

/-- A result that takes no bytes. -/
def ofExcept {ε α : Type} (x : Except ε α) : Reader ε α := fun c =>
  match x with
  | .ok a => .ok a c
  | .error e => .error e c

instance {ε : Type} : MonadLift (Except ε) (Reader ε) where
  monadLift x := ofExcept x

/-- The next `size` bytes. -/
def block (size : Nat) : Reader OutOfBounds (List UInt8) := fun c =>
  if c.offset + size ≤ c.stop then .ok (c.unread.take size) (c.advance size)
  else .error ⟨c.offset, size⟩ c

/-- The number in the next `width` bytes. -/
def number (width : Nat) : Reader OutOfBounds Nat := do
  let c ← get
  let bytes ← block width
  return c.order.value bytes

def byte : Reader OutOfBounds UInt8 :=
  UInt8.ofNat <$> number 1

def half : Reader OutOfBounds UInt16 :=
  UInt16.ofNat <$> number 2

def word : Reader OutOfBounds UInt32 :=
  UInt32.ofNat <$> number 4

def xword : Reader OutOfBounds UInt64 :=
  UInt64.ofNat <$> number 8

/-- A word read as a signed number. -/
def int : Reader OutOfBounds Int :=
  (fun w => w.toInt32.toInt) <$> word

/-- The text up to the next zero byte, which is taken too. -/
def string : Reader OutOfBounds String := fun c =>
  let bytes := c.unread.takeWhile (· != 0)
  if bytes.length < c.unread.length then
    .ok (Utf8.text bytes) (c.advance (bytes.length + 1))
  else .error ⟨c.offset, c.unread.length + 1⟩ c

/-- Rounds of a reader until it yields nothing more, newest first. -/
def rounds {ε α : Type} (item : Reader ε (Option α)) :
    Nat → List α → Reader ε (List α)
  | 0, found => fun c => .ok found c
  | fuel + 1, found => fun c =>
      match item c with
      | .error e c => .error e c
      | .ok none c => .ok found c
      | .ok (some a) c => rounds item fuel (a :: found) c

/-- What a reader yields, in order, until it yields nothing more.  It must
take at least one byte for each thing it yields: the bytes left then bound
the rounds. -/
def collect {ε α : Type} (item : Reader ε (Option α)) : Reader ε (List α) :=
  fun c => (List.reverse <$> rounds item (c.remaining + 1) []) c

/-- Items up to the end of the bytes. -/
def toEnd {ε α : Type} (item : Reader ε α) : Reader ε (List α) :=
  collect do
    if (← get).atEnd then return none
    return some (← item)

/-- What comes of a reader, and where the cursor is then. -/
def attempt {ε α : Type} (r : Reader ε α) (c : Cursor) : Except ε α × Cursor :=
  match r c with
  | .ok a c => (.ok a, c)
  | .error e c => (.error e, c)

/-- The result of a reader on a cursor of its own. -/
def on {ε α : Type} (r : Reader ε α) (c : Cursor) : Except ε α :=
  (r.attempt c).1

end Reader

end DwarfOne
