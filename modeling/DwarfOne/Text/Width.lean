/-
# `Text.Width` — how many columns a text takes

A terminal gives most characters one column, ideographs and pictures two, and
accents none.  Some characters count otherwise beside others: letters that are
drawn as one, pictures put together, and characters with a selector after them
that says how to draw them.  So a line is measured from its end, and what has
been measured is remembered as far as it can change what comes before it.

There is a second measure for East Asian settings, where signs that could be
wide are; the padding of styled lines goes by both.
-/
import DwarfOne.Text.EastAsian
import DwarfOne.Text.Emoji

namespace DwarfOne.Width

inductive Setting
  | western
  | eastAsian
  deriving DecidableEq, Repr

/-! ## Single characters -/

/-- The columns of a character on its own.  Control characters count like any
other. -/
def ofChar (setting : Setting) (c : Char) : Nat :=
  if c.toNat ≤ 0xA0 then 1
  else if c.toNat = 0x17D8 then 3
  else if zero.contains c then 0
  else if wide.contains c then 2
  else if setting = .eastAsian && ambiguous.contains c then 2
  else 1

/-! ## What follows a character -/

/-- How a selector wants the character before it drawn. -/
inductive Selector
  | text
  | picture
  deriving DecidableEq, Repr

/-- What a character is to the one before it. -/
inductive Neighbour
  | plain
  | ligature (l : Ligature)
  | emoji (e : Emoji)
  /-- A Kirat Rai vowel sign: a single one, or two drawn as one. -/
  | vowel (double : Bool)
  /-- A selector for the form of a quotation mark. -/
  | quoteForm (isWide : Bool)
  deriving DecidableEq, Repr

/-- What follows a character: a neighbour, and a selector before that. -/
structure Following where
  selector : Option Selector
  neighbour : Neighbour
  deriving DecidableEq, Repr

namespace Following

def of (neighbour : Neighbour) : Following :=
  ⟨none, neighbour⟩

/-- A selector inside a ligature does not part it. -/
def unselected (f : Following) : Neighbour :=
  match f.selector, f.neighbour with
  | none, n => n
  | some _, .ligature l => .ligature l
  | some _, _ => .plain

/-- The same neighbour with a selector before it. -/
def select (selector : Selector) (n : Neighbour) : Following :=
  match selector, n with
  | _, .ligature l => ⟨some selector, .ligature l⟩
  | .picture, .emoji .joined => ⟨some selector, .emoji .joined⟩
  | .picture, .emoji .joinedKeycap => ⟨some selector, .emoji .joinedKeycap⟩
  | _, _ => ⟨some selector, .plain⟩

/-- Whether a picture is joined to what comes before. -/
def isJoined (f : Following) : Bool :=
  f.neighbour = .emoji .joined || f.neighbour = .emoji .joinedKeycap

end Following

/-! ## Beside others -/

def neighbourOf (setting : Setting) (c : Char) : Neighbour :=
  match Ligature.ending? c, Emoji.ending? c with
  | some l, _ => .ligature l
  | none, some e => .emoji e
  | none, none =>
      match c.toNat with
      | 0x338 => if setting = .eastAsian then .ligature .stroke else .plain
      | 0xFE00 | 0xFE02 => .quoteForm false
      | 0xFE01 => .quoteForm true
      | 0x16D67 => .vowel false
      | 0x16D68 => .vowel true
      | _ => .plain

/-- Whether a picture can be drawn in one column.  Those in the block of
enclosed ideographs cannot. -/
def isNarrowable (c : Char) : Bool :=
  Emoji.selectable.contains c && Emoji.pictures.contains c &&
    !(0x1F200 ≤ c.toNat && c.toNat ≤ 0x1F2FF)

def isQuote (c : Char) : Bool :=
  c = '‘' || c = '’' || c = '“' || c = '”'

/-- The vowel signs that are one sign together. -/
def beforeVowel? (double : Bool) (c : Char) : Option (Int × Neighbour) :=
  match double, c.toNat with
  | _, 0x16D63 => some (0, .plain)
  | false, 0x16D67 => some (0, .vowel true)
  | false, 0x16D68 => some (1, .vowel false)
  | false, 0x16D69 => some (0, .plain)
  | _, _ => none

/-- The columns that a character adds because of its neighbour, if that has a
say, and what the two are to the character before them. -/
def beside? (setting : Setting) (n : Neighbour) (c : Char) : Option (Int × Neighbour) :=
  match n with
  | .plain => none
  | .ligature .alef =>
      if setting = .eastAsian && c.toNat = 0x338 then some (0, .ligature .struckAlef)
      else (Ligature.before? .alef c).map fun (k, l) => (k, l.elim .plain .ligature)
  | .ligature l => (l.before? c).map fun (k, l) => (k, l.elim .plain .ligature)
  | .emoji e => (e.before? c).map fun (k, e) => (k, .emoji e)
  | .vowel double => beforeVowel? double c
  | .quoteForm isWide => if isQuote c then some (if isWide then 2 else 1, .plain) else none

/-- The columns that a selector after a character gives it. -/
def selected? (c : Char) (f : Following) : Option (Int × Following) :=
  match f.selector with
  | some .picture =>
      if Emoji.selectable.contains c then
        some (if f.isJoined then 0 else 2, .of (.emoji .picture))
      else none
  | some .text => if isNarrowable c then some (1, .of .plain) else none
  | none => none

/-- Whether a stroke makes a wide sign of a character. -/
def isStruck (n : Neighbour) (c : Char) : Bool :=
  (c = '<' || c = '=' || c = '>') && (n = .ligature .stroke || n = .ligature .struckAlef)

/-- The columns that a character adds to what follows it, and what they are
together to the character before. -/
def step (setting : Setting) (c : Char) (f : Following) : Int × Following :=
  match selected? c f with
  | some r => r
  | none =>
      let n := f.unselected
      if c.toNat ≤ 0xA0 then (if isStruck n c then 2 else 1, .of .plain)
      else if c.toNat = 0xFE0F then (0, .select .picture n)
      else if c.toNat = 0xFE0E && setting = .western then (0, .select .text n)
      else
        match beside? setting n c with
        | some (k, n) => (k, .of n)
        | none => (ofChar setting c, .of (neighbourOf setting c))

/-! ## Lines -/

/-- The columns of a line. -/
def measure (setting : Setting) (line : String) : Nat :=
  let measured := line.toList.foldr (fun c (total, f) =>
    let (k, f) := step setting c f
    (total + k, f)) ((0 : Int), Following.of .plain)
  measured.1.toNat

def columns (line : String) : Nat :=
  measure .western line

def wideColumns (line : String) : Nat :=
  measure .eastAsian line

end DwarfOne.Width
