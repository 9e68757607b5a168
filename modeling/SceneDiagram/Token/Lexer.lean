import SceneDiagram.Diagnostic
import SceneDiagram.Text.Blank
import SceneDiagram.Token
import SceneDiagram.Token.Number

/-!
# Splitting a text into tokens

The text is cut into pieces that follow each other without gap: tokens,
characters that begin no token, and at most one string that never ends. Every
fault of the text is reported, not only the first.
-/

namespace SceneDiagram

open Text

-- ---------------------------------------------------------------------------
-- The front of a text
-- ---------------------------------------------------------------------------

def isWordChar (c : Char) : Bool :=
  isAlphanumeric c || c == '_' || c == '/' || c == '.' || c == '-'

def isWordStart (c : Char) : Bool := isAlphanumeric c || c == '_'

def isInlineBlank (c : Char) : Bool := isBlank c && c != '\n'

/-- The character that a backslash and a letter stand for. A letter without a
meaning of its own stands for itself. -/
def unescape : Char → Char
  | 'n' => '\n'
  | 'r' => '\r'
  | 't' => '\t'
  | 'b' => '\x08'
  | 'f' => '\x0c'
  | '0' => '\x00'
  | c => c

inductive QuotedBody
  /-- The decoded text, and the number of characters up to and with the quote
  that ends it. -/
  | closed (text : List Char) (length : Nat)
  /-- The number of characters up to the point where the text breaks off: its
  end, or a lone backslash there. -/
  | unclosed (length : Nat)

def QuotedBody.cons (c : Char) (n : Nat) : QuotedBody → QuotedBody
  | .closed text length => .closed (c :: text) (length + n)
  | .unclosed length => .unclosed (length + n)

def QuotedBody.read : List Char → QuotedBody
  | [] => .unclosed 0
  | ['\\'] => .unclosed 0
  | '\\' :: c :: cs => (read cs).cons (unescape c) 2
  | c :: cs => if c = '"' then .closed [] 1 else (read cs).cons c 1

/-- What a text begins with. Lengths count the characters behind the first. -/
inductive Front
  | token (token : Token) (more : Nat)
  | unterminated (more : Nat)
  | unexpected

def Front.ofQuoted (kind : Quote) (lead : Nat) (cs : List Char) : Front :=
  match QuotedBody.read cs with
  | .closed text length => .token (.quoted kind (String.ofList text)) (lead + length)
  | .unclosed length => .unterminated (lead + length)

/-- A token that is neither a comment nor quoted: numbers come before words, a
line break before other white space. -/
def Front.ofPlain (c : Char) (cs : List Char) : Front :=
  match Number.read? (c :: cs) with
  | some (value, n + 1) => .token (.number value) n
  | _ =>
    if isWordStart c then
      let more := cs.takeWhile isWordChar
      .token (.word (String.ofList (c :: more))) more.length
    else match Punctuation.ofChar? c with
      | some mark => .token (.punctuation mark) 0
      | none =>
        if c = '\n' then .token .newline 0
        else if isInlineBlank c then .token .blank (cs.takeWhile isInlineBlank).length
        else .unexpected

def Front.read (c : Char) (cs : List Char) : Front :=
  match c, cs with
  | ';', cs =>
    let text := cs.takeWhile (· != '\n')
    .token (.comment (String.ofList text)) text.length
  | '"', cs => .ofQuoted .plain 0 cs
  | '&', '"' :: cs => .ofQuoted .name 1 cs
  | '^', '"' :: cs => .ofQuoted .path 1 cs
  | c, cs => .ofPlain c cs

-- ---------------------------------------------------------------------------
-- The whole text
-- ---------------------------------------------------------------------------

def byteLength : List Char → Nat
  | [] => 0
  | c :: cs => c.utf8Size + byteLength cs

inductive Piece
  | token (token : Spanned Token)
  /-- A character that begins no token; the place is that of its first byte. -/
  | unexpected (span : Span)
  | unterminated (span : Span)

/-- The pieces of the part of a text that begins at the byte `start`. -/
def Piece.readFrom (start : Nat) (cs : List Char) : List Piece :=
  match cs with
  | [] => []
  | c :: cs =>
    match Front.read c cs with
    | .token t more =>
      let stop := start + c.utf8Size + byteLength (cs.take more)
      .token ⟨t, ⟨start, stop⟩⟩ :: readFrom stop (cs.drop more)
    | .unterminated more =>
      [.unterminated ⟨start, start + c.utf8Size + byteLength (cs.take more)⟩]
    | .unexpected => .unexpected ⟨start, start + 1⟩ :: readFrom (start + c.utf8Size) cs
termination_by cs.length
decreasing_by
  · simp only [List.length_drop, List.length_cons]; omega
  · simp only [List.length_cons]; omega

def Piece.token? : Piece → Option (Spanned Token)
  | .token t => some t
  | _ => none

def Piece.diagnostic? : Piece → Option Diagnostic
  | .token _ => none
  | .unexpected span => some
    { severity := .error
      message := "unexpected character"
      code := some .unexpectedCharacter
      labels := [⟨span, Diagnostic.Code.unexpectedCharacter.description, true⟩] }
  | .unterminated span => some
    { severity := .error
      message := "unterminated string literal"
      code := some .unterminatedString
      labels := [⟨span, Diagnostic.Code.unterminatedString.description, true⟩]
      help := some "add closing `\"`" }

def Tokens.read (source : String) : Except Malformed Tokens :=
  let pieces := Piece.readFrom 0 source.toList
  match Diagnostic.settle (pieces.filterMap Piece.diagnostic?) with
  | .error m => .error m
  | .ok _ => .ok (pieces.filterMap Piece.token?)

end SceneDiagram
