import SceneDiagram.Decimal
import SceneDiagram.Span

/-!
# Tokens

The words of a scene text: literals, bare words, punctuation, and the trivia
between them.
-/

namespace SceneDiagram

inductive Quote
  | plain
  /-- A name, written with `&` in front. -/
  | name
  | path
  deriving DecidableEq, Repr

def Quote.mark : Quote → String
  | .plain => ""
  | .name => "&"
  | .path => "^"

inductive Punctuation
  | equals
  | comma
  | colon
  | leftBracket
  | rightBracket
  | leftParen
  | rightParen
  | leftBrace
  | rightBrace
  deriving DecidableEq, Repr

namespace Punctuation

def char : Punctuation → Char
  | .equals => '='
  | .comma => ','
  | .colon => ':'
  | .leftBracket => '['
  | .rightBracket => ']'
  | .leftParen => '('
  | .rightParen => ')'
  | .leftBrace => '\x7b'
  | .rightBrace => '\x7d'

def ofChar? : Char → Option Punctuation
  | '=' => some .equals
  | ',' => some .comma
  | ':' => some .colon
  | '[' => some .leftBracket
  | ']' => some .rightBracket
  | '(' => some .leftParen
  | ')' => some .rightParen
  | '\x7b' => some .leftBrace
  | '\x7d' => some .rightBrace
  | _ => none

theorem ofChar?_char (p : Punctuation) : ofChar? p.char = some p := by
  cases p <;> rfl

end Punctuation

inductive Token
  /-- A quoted text with its escapes resolved. -/
  | quoted (kind : Quote) (text : String)
  | number (value : Float)
  | word (text : String)
  | punctuation (mark : Punctuation)
  | comment (text : String)
  | blank
  | newline
  deriving Repr

namespace Token

def isTrivia : Token → Bool
  | .comment _ | .blank | .newline => true
  | _ => false

def isMark (mark : Punctuation) : Token → Bool
  | .punctuation p => p == mark
  | _ => false

/-- The token as text; quoted text is written raw. -/
def text : Token → String
  | .quoted kind s => kind.mark ++ "\"" ++ s ++ "\""
  | .number x => Decimal.text x
  | .word s => s
  | .punctuation p => p.char.toString
  | .comment s => ";" ++ s
  | .blank => " "
  | .newline => "\n"

/-- Equality of tokens: numbers compare as numbers do, so that the value that is
no number differs from itself and the two zeros are equal. -/
def same : Token → Token → Bool
  | .quoted k s, .quoted l t => k == l && s == t
  | .number x, .number y => x == y
  | .word s, .word t => s == t
  | .punctuation p, .punctuation q => p == q
  | .comment s, .comment t => s == t
  | .blank, .blank => true
  | .newline, .newline => true
  | _, _ => false

end Token

abbrev Tokens := List (Spanned Token)

def Tokens.same : Tokens → Tokens → Bool
  | [], [] => true
  | s :: ss, t :: ts => s.value.same t.value && same ss ts
  | _, _ => false

end SceneDiagram
