/-
# `Text.StyleSheet` — the styles written out

The sheet names each element of the output and says how it looks.
-/
import DwarfOne.Text.Style

namespace DwarfOne

def Colour.name : Colour → String
  | .red => "red"
  | .green => "green"
  | .blue => "blue"
  | .magenta => "magenta"
  | .cyan => "cyan"
  | .white => "white"

namespace StyleSheet

def elements : List (String × Style) :=
  [("warn", .warning), ("explain title", .explainTitle), ("explain text", .explainText),
   ("hex offset", .hexOffset), ("hex hex", .hexBytes), ("hex ascii", .hexAscii),
   ("table header", .tableHeader), ("table separator", .tableSeparator),
   ("table field", .tableField), ("tree tag", .treeTag), ("tree attribute", .treeAttribute),
   ("code keyword", .codeKeyword), ("code identifier", .codeIdentifier),
   ("code literal", .codeLiteral), ("code comment", .codeComment),
   ("code punctuation", .codePunctuation)]

def entry (name : String) (style : Style) : String :=
  let colour :=
    match style.colour with
    | some c => "    color: " ++ c.name ++ ";\n"
    | none => ""
  let weight := if style.bold then "    decoration: bold;\n" else ""
  "@element \"" ++ name ++ "\" \x7b\n" ++ colour ++ weight ++ "\x7d\n"

/-- One entry for each element, with a blank line between. -/
def text : String :=
  "\n".intercalate (elements.map fun (name, style) => entry name style)

end StyleSheet

end DwarfOne
