/-
# `Text.Emoji` — pictures made of several characters

A skin tone may follow a picture, and a joiner with another picture.  Flags
are letters in pairs, or a flag with the tags of a region.  What is joined
takes the two columns of one picture.  A text is measured from its end, so a
sequence is met by its last character.
-/
import DwarfOne.Text.EmojiData
import DwarfOne.Text.Ligature

namespace DwarfOne

/-- The end of a sequence that what comes before it may continue. -/
inductive Emoji
  | picture
  | skinTone
  | flagLetter
  | flagLetters
  /-- A joiner and the picture after it. -/
  | joined
  /-- Each of the following ends in a joiner and the picture after it. -/
  | joinedKeycap
  | joinedLetter
  | joinedFlags
  | joinedFlagsAndLetter
  | joinedTagLetters (count : Nat)
  | joinedTagDigits (count : Nat)
  deriving DecidableEq, Repr

namespace Emoji

/-- The sequence that a character may end. -/
def ending? (c : Char) : Option Emoji :=
  if flagAlphabet.contains c then some .flagLetter
  else if skinTones.contains c then some .skinTone
  else if pictures.contains c then some .picture
  else none

/-- What a joiner before a sequence makes of it. -/
def join? : Emoji → Option Emoji
  | .picture | .skinTone | .flagLetters | .joinedFlags | .joinedFlagsAndLetter => some .joined
  | _ => none

/-- What a picture's joiner may come after, with the columns that adds. -/
def beforeJoiner? (c : Char) : Option (Int × Emoji) :=
  if flagAlphabet.contains c then some (1, .joinedLetter)
  else if skinTones.contains c then some (0, .skinTone)
  else if pictures.contains c then some (0, .picture)
  else
    match c.toNat with
    | 0x20E3 => some (0, .joinedKeycap)
    | 0xE007F => some (0, .joinedTagLetters 0)
    | _ => none

/-- A flag letter takes one column, and two of a joined flag none: they are
part of the picture. -/
def beforeLetters? : Emoji → Option (Int × Emoji)
  | .flagLetter | .flagLetters => some (1, .flagLetters)
  | .joinedLetter | .joinedFlagsAndLetter => some (-1, .joinedFlags)
  | .joinedFlags => some (3, .joinedFlagsAndLetter)
  | _ => none

/-- The tags of a flag: a region of two letters or three digits, then up to
four letters or digits. -/
def beforeTags? (e : Emoji) (c : Char) : Option Emoji :=
  let isFlag := c.toNat = 0x1F3F4
  match e with
  | .joinedTagLetters n =>
      if isFlag && 3 ≤ n then some .picture
      else if tagAlphabet.contains c && n < 6 then some (.joinedTagLetters (n + 1))
      else if tagDigits.contains c && n ≤ 4 then some (.joinedTagDigits 1)
      else none
  | .joinedTagDigits n =>
      if isFlag && n = 3 then some .picture
      else if tagDigits.contains c && n < 3 then some (.joinedTagDigits (n + 1))
      else none
  | _ => none

/-- The columns that the character before a sequence adds if it belongs to it,
and the sequence they make. -/
def before? (e : Emoji) (c : Char) : Option (Int × Emoji) :=
  if c = Ligature.joiner then e.join?.map (0, ·)
  else
    match e with
    | .joined => beforeJoiner? c
    | .skinTone => if skinned.contains c then some (0, .picture) else none
    | .joinedTagLetters _ | .joinedTagDigits _ => (e.beforeTags? c).map (0, ·)
    | _ => if flagAlphabet.contains c then e.beforeLetters? else none

end Emoji

end DwarfOne
