/-
# `Text.Style` — colours and weights for a terminal

A styled text is written line by line: the escapes of the style, the line,
spaces up to the width of the longest line, and two resets.  Nothing
separates the lines.
-/
import DwarfOne.Text.Lines
import DwarfOne.Text.Numeral
import DwarfOne.Text.Width

namespace DwarfOne

inductive Colour
  | red
  | green
  | blue
  | magenta
  | cyan
  | white
  deriving DecidableEq, Repr

/-- The number a terminal knows a colour by. -/
def Colour.code : Colour → Nat
  | .red => 31
  | .green => 32
  | .blue => 34
  | .magenta => 35
  | .cyan => 36
  | .white => 37

structure Style where
  colour : Option Colour
  bold : Bool
  deriving DecidableEq, Repr

/-- How a text is put in a style. -/
abbrev Paint := Style → String → String

namespace Style

/-! What each part of the output looks like. -/

def warning : Style := ⟨some .red, true⟩
def explainTitle : Style := ⟨none, true⟩
def explainText : Style := ⟨some .white, false⟩
def hexOffset : Style := ⟨some .blue, false⟩
def hexBytes : Style := ⟨some .white, false⟩
def hexAscii : Style := ⟨some .green, false⟩
def tableHeader : Style := ⟨none, true⟩
def tableSeparator : Style := ⟨some .blue, false⟩
def tableField : Style := ⟨some .white, false⟩
def treeTag : Style := ⟨some .magenta, true⟩
def treeAttribute : Style := ⟨some .cyan, false⟩
def codeKeyword : Style := ⟨some .blue, true⟩
def codeIdentifier : Style := ⟨some .white, false⟩
def codeLiteral : Style := ⟨some .magenta, false⟩
def codeComment : Style := ⟨some .green, false⟩
def codePunctuation : Style := ⟨some .white, false⟩

/-- The escape sequence with a number. -/
def escape (code : Nat) : String :=
  "\x1b[" ++ Numeral.decimal code ++ "m"

/-- What comes before a styled line: the colour, then the weight. -/
def opening (s : Style) : String :=
  (match s.colour with
    | some colour => escape colour.code
    | none => "") ++
  if s.bold then escape 1 else ""

def spaces (n : Nat) : String :=
  String.ofList (List.replicate n ' ')

/-- A line padded to the greatest width among the lines. -/
def applyLine (s : Style) (greatest : Nat) (line : String) : String :=
  let width := Width.columns line
  s.opening ++ line ++ spaces (greatest - width + (Width.wideColumns line - width)) ++
    escape 0 ++ escape 0

/-- The paint of a terminal. -/
def apply (s : Style) (text : String) : String :=
  let lines := Text.lines text
  let greatest := (lines.map Width.wideColumns).foldl max 0
  String.join (lines.map (s.applyLine greatest))

end Style

end DwarfOne
