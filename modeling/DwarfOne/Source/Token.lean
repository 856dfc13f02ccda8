/-
# `Source.Token` — source text in pieces

Rendered source is a list of tokens, so that it can be printed plain, marked
up or styled.  `Code` keeps it in one form only: no token is empty and no two
neighbours are of the same kind.
-/
import DwarfOne.Text.Style

namespace DwarfOne

inductive TokenKind
  | keyword
  | identifier
  | literal
  | comment
  /-- Operators, brackets and white space. -/
  | punctuation
  deriving DecidableEq, Repr

namespace TokenKind

def className : TokenKind → String
  | .keyword => "keyword"
  | .identifier => "identifier"
  | .literal => "literal"
  | .comment => "comment"
  | .punctuation => "punctuation"

def style : TokenKind → Style
  | .keyword => .codeKeyword
  | .identifier => .codeIdentifier
  | .literal => .codeLiteral
  | .comment => .codeComment
  | .punctuation => .codePunctuation

end TokenKind

structure Token where
  kind : TokenKind
  text : String
  deriving DecidableEq, Repr

namespace Token

/-- A character as HTML.  Blanks and newlines must show. -/
def htmlChar : Char → List Char
  | '&' => "&amp;".toList
  | '<' => "&lt;".toList
  | '>' => "&gt;".toList
  | '\x22' => "&quot;".toList
  | '\x27' => "&apos;".toList
  | ' ' => "&nbsp;".toList
  | '\n' => "<br>".toList
  | c => [c]

/-- A span whose class is the kind. -/
def html (t : Token) : String :=
  "<span class=\"" ++ t.kind.className ++ "\">" ++
    String.ofList (t.text.toList.flatMap htmlChar) ++ "</span>"

def styled (paint : Paint) (t : Token) : String :=
  paint t.kind.style t.text

end Token

structure Code where
  tokens : Array Token
  deriving DecidableEq, Repr

namespace Code

def empty : Code := ⟨#[]⟩

def isEmpty (code : Code) : Bool :=
  code.tokens.isEmpty

/-- Adds a token, to the last one if that is of the same kind. -/
def push (code : Code) (t : Token) : Code :=
  if t.text.isEmpty then code
  else
    match code.tokens.back? with
    | some last =>
        if last.kind = t.kind then
          ⟨code.tokens.pop.push { last with text := last.text ++ t.text }⟩
        else ⟨code.tokens.push t⟩
    | none => ⟨code.tokens.push t⟩

def append (a b : Code) : Code :=
  b.tokens.foldl push a

def ofTokens (tokens : List Token) : Code :=
  tokens.foldl push empty

def plain (code : Code) : String :=
  String.join (code.tokens.toList.map Token.text)

def html (code : Code) : String :=
  String.join (code.tokens.toList.map Token.html)

def styled (paint : Paint) (code : Code) : String :=
  String.join (code.tokens.toList.map (Token.styled paint))

end Code

end DwarfOne
