/-
# `Text.Lines` — lines and the blanks at their ends
-/
import DwarfOne.Text.CharClass

namespace DwarfOne.Text

/-- The line that a newline ends: a carriage return just before it goes too. -/
def endLine (reversed : List Char) : List Char :=
  match reversed with
  | '\r' :: rest => rest.reverse
  | _ => reversed.reverse

/-- The lines of a text, given the start of the first one in reverse.  A text
that ends in a newline has no empty line after it. -/
def linesFrom : List Char → List Char → List (List Char)
  | [], [] => []
  | start, [] => [start.reverse]
  | start, '\n' :: cs => endLine start :: linesFrom [] cs
  | start, c :: cs => linesFrom (c :: start) cs

def lines (text : String) : List String :=
  (linesFrom [] text.toList).map String.ofList

/-- What lies between the newlines of a text, given the start of the first
piece in reverse.  There is one piece more than there are newlines. -/
def piecesFrom : List Char → List Char → List (List Char)
  | start, [] => [start.reverse]
  | start, '\n' :: cs => start.reverse :: piecesFrom [] cs
  | start, c :: cs => piecesFrom (c :: start) cs

def pieces (text : String) : List String :=
  (piecesFrom [] text.toList).map String.ofList

/-- White space in the sense of Unicode. -/
def blank : CharClass where
  ranges :=
    [(0x9, 0xD), (0x20, 0x20), (0x85, 0x85), (0xA0, 0xA0), (0x1680, 0x1680), (0x2000, 0x200A),
     (0x2028, 0x2029), (0x202F, 0x202F), (0x205F, 0x205F), (0x3000, 0x3000)]

/-- The text without the blanks at its end. -/
def trimEnd (text : String) : String :=
  String.ofList (text.toList.reverse.dropWhile blank.contains).reverse

end DwarfOne.Text
