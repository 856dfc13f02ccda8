/-
# `Text.Ligature` — letters that share a column

In some scripts letters that meet are drawn as one, and take one column
together.  A text is measured from its end, so a ligature is met by its last
letter; what comes before it decides whether it is completed.  In Arabic any
mark may stand inside; elsewhere only marks without a look of their own may,
and a joiner may have to.
-/
import DwarfOne.Text.ZeroWidth

namespace DwarfOne

/-- The end of a ligature that what comes before it may complete. -/
inductive Ligature
  | alef
  /-- An alef with a stroke before it, which could also be one through a sign. -/
  | struckAlef
  /-- A stroke through the sign before it. -/
  | stroke
  | lamed (joined : Bool)
  | ya (joined : Bool)
  /-- A joined ya with the vowel before it. -/
  | vowelledYa
  | consonant (joined : Bool)
  /-- A consonant with the mark that ties it to the one before it. -/
  | tiedConsonant
  | tone
  | orkhonI (joined : Bool)
  /-- A letter that a mark before it puts under the one before that. -/
  | subscript
  deriving DecidableEq, Repr

namespace Ligature

/-! ## The letters -/

def alefs : CharClass where
  ranges :=
    [(0x622, 0x623), (0x625, 0x625), (0x627, 0x627), (0x671, 0x673), (0x675, 0x675),
     (0x773, 0x774), (0x870, 0x882)]

def lams : CharClass where
  ranges := [(0x644, 0x644), (0x6B5, 0x6B8), (0x76A, 0x76A), (0x8A6, 0x8A6), (0x8C7, 0x8C7)]

/-- The Khmer letters that have a form to be put under another. -/
def subscripts : CharClass where
  ranges :=
    [(0x1780, 0x1782), (0x1784, 0x1787), (0x1789, 0x178C), (0x178E, 0x1793), (0x1795, 0x1798),
     (0x179B, 0x179D), (0x17A0, 0x17A0), (0x17A2, 0x17A2), (0x17A7, 0x17A7), (0x17AB, 0x17AC),
     (0x17AF, 0x17AF)]

/-- The Tifinagh consonants. -/
def consonants : CharClass where
  ranges := [(0x2D31, 0x2D65), (0x2D6F, 0x2D6F)]

/-- The Lisu tones that another may follow. -/
def firstTones : CharClass where
  ranges := [(0xA4F8, 0xA4FB)]

def secondTones : CharClass where
  ranges := [(0xA4FC, 0xA4FD)]

/-- The marks without a look of their own. -/
def unseen : CharClass where
  ranges :=
    [(0x34F, 0x34F), (0x17B4, 0x17B5), (0x180B, 0x180D), (0x180F, 0x180F), (0xFE00, 0xFE0F),
     (0xE0100, 0xE01EF)]

def joiner : Char := '\u200D'

/-- Whether letters join through a character as if it were not there. -/
def isTransparent (c : Char) : Bool :=
  Width.zero.contains c && !Width.unjoining.contains c

/-! ## From the end -/

/-- The ligature that a letter may end. -/
def ending? (c : Char) : Option Ligature :=
  if alefs.contains c then some .alef
  else if subscripts.contains c then some .subscript
  else if consonants.contains c then some (.consonant false)
  else if secondTones.contains c then some .tone
  else
    match c.toNat with
    | 0x5DC => some (.lamed false)
    | 0x1A10 => some (.ya false)
    | 0x10C03 => some (.orkhonI false)
    | _ => none

/-- The ligature with a joiner before it. -/
def join : Ligature → Ligature
  | .lamed _ => .lamed true
  | .ya _ => .ya true
  | .consonant _ => .consonant true
  | .orkhonI _ => .orkhonI true
  | .struckAlef => .stroke
  | l => l

/-- The columns that the character before a ligature adds if it belongs to it,
and what of the ligature is still open then. -/
def extend? (l : Ligature) (c : Char) : Option (Int × Option Ligature) :=
  match l, c.toNat with
  | .lamed true, 0x5D0 => some (0, none)
  | .subscript, 0x17D2 => some (-1, none)
  | .ya true, 0x1A17 => some (0, some .vowelledYa)
  | .vowelledYa, 0x1A15 => some (0, none)
  | .consonant _, 0x2D7F => some (1, some .tiedConsonant)
  | .orkhonI true, 0x10C32 => some (0, none)
  | .consonant true, _ => if consonants.contains c then some (0, none) else none
  | .tiedConsonant, _ => if consonants.contains c then some (-1, none) else none
  | .tone, _ => if firstTones.contains c then some (0, none) else none
  | .alef, _ | .struckAlef, _ =>
      if lams.contains c then some (0, none)
      else if isTransparent c then some (0, some l)
      else none
  | _, _ => none

/-- The same with the marks and joiners that may stand inside. -/
def before? (l : Ligature) (c : Char) : Option (Int × Option Ligature) :=
  if l = .alef then l.extend? c
  else if c = joiner then some (0, some l.join)
  else if unseen.contains c then some (0, some l)
  else l.extend? c

end Ligature

end DwarfOne
