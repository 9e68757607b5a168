import SceneDiagram.Text.Split
import SceneDiagram.Token.Lexer
import SceneDiagram.Value

/-!
# Reading sections

A file is a sequence of sections, each a header and the lines below it; values
nest and span lines. One token ahead decides every choice, so a fault is found
at the first token that cannot go on, and is reported with what could have
stood there. Trivia may stand between any two parts, except in front of the
bracket that turns a word into a call.
-/

namespace SceneDiagram

-- ---------------------------------------------------------------------------
-- Faults
-- ---------------------------------------------------------------------------

inductive Expectation
  | mark (mark : Punctuation)
  | identifier
  | value
  deriving DecidableEq, Repr

def Expectation.text : Expectation → String
  | .mark p => "`" ++ p.char.toString ++ "`"
  | .identifier => "identifier"
  | .value => "value"

/-- Where reading stopped, given as the tokens left there. -/
structure Fault where
  rest : Tokens
  /-- What could have stood there, innermost construct first. -/
  expected : List Expectation
  /-- The tokens behind the opening of the innermost construct begun. -/
  since : Option Tokens

def Fault.begun (start : Tokens) (f : Fault) : Fault := { f with since := f.since <|> some start }

def Fault.inValue (f : Fault) : Fault := { f with expected := f.expected ++ [.value] }

def firstMeaningful? (ts : Tokens) : Option (Spanned Token) := ts.find? (!·.value.isTrivia)

def lastMeaningful? (ts : Tokens) : Option (Spanned Token) := firstMeaningful? ts.reverse

def skipTrivia : Tokens → Tokens
  | [] => []
  | t :: ts => if t.value.isTrivia then skipTrivia ts else t :: ts

theorem length_skipTrivia_le (ts : Tokens) : (skipTrivia ts).length ≤ ts.length := by
  induction ts with
  | nil => simp [skipTrivia]
  | cons t ts ih =>
    unfold skipTrivia
    split
    · exact Nat.le_succ_of_le ih
    · exact Nat.le_refl _

theorem lt_of_skipTrivia {ts : Tokens} {t : Spanned Token} {rest : Tokens}
    (h : skipTrivia ts = t :: rest) : rest.length < ts.length := by
  have := length_skipTrivia_le ts
  rw [h] at this
  exact this

theorem lt_cons {α : Type} {t : α} {ts rest : List α} (h : rest.length < ts.length) :
    rest.length < (t :: ts).length := Nat.lt_succ_of_lt h

def Fault.expectedText (f : Fault) : String :=
  if f.expected.isEmpty then "unexpected token or end of input"
  else Text.join " → " (f.expected.map fun e => "expected " ++ e.text)

/-- The report of a fault in a file of tokens. With nothing but trivia left the
file is incomplete; else the next token is the unexpected one. -/
def Fault.diagnostic (file : Tokens) (f : Fault) : Diagnostic :=
  let opening := (firstMeaningful? (f.since.getD f.rest)).map (·.span)
  match firstMeaningful? f.rest with
  | some offending =>
    let context := match opening with
      | some span =>
        if span.start < offending.span.start then [⟨span, "while parsing this", false⟩] else []
      | none => []
    { severity := .error
      message := "unexpected token: " ++ f.expectedText
      code := some .unexpectedToken
      labels := ⟨offending.span, "unexpected token", true⟩ :: context
      help := some "check the section header and `key = value` syntax" }
  | none =>
    let last := ((lastMeaningful? file).map (·.span)).getD ⟨0, 0⟩
    { severity := .error
      message := "incomplete input: " ++ f.expectedText
      code := some .incompleteInput
      labels := [⟨(opening.map (·.union last)).getD last, "incomplete", true⟩]
      help := some "close every section header, array and call before the end of the file" }

-- ---------------------------------------------------------------------------
-- Parts of a file
-- ---------------------------------------------------------------------------

/-- A part read from the front of the tokens, and the fewer tokens behind it. -/
structure Parsed (α : Type) (ts : Tokens) where
  value : α
  rest : Tokens
  shorter : rest.length < ts.length

abbrev Outcome (α : Type) (ts : Tokens) := Except Fault (Parsed α ts)

def Fault.here (ts : Tokens) (expected : List Expectation) : Fault := ⟨ts, expected, none⟩

def begun {α : Type} (start : Tokens) (x : Except Fault α) : Except Fault α :=
  x.mapError (Fault.begun start)

def begunValue {α : Type} (start : Tokens) (x : Except Fault α) : Except Fault α :=
  x.mapError fun f => (f.begun start).inValue

def readMark (mark : Punctuation) : (ts : Tokens) → Outcome Span ts
  | t :: ts =>
    if t.value.isMark mark then .ok ⟨t.span, ts, by simp⟩
    else .error (.here (t :: ts) [.mark mark])
  | [] => .error (.here [] [.mark mark])

def readWord : (ts : Tokens) → Outcome (Spanned String) ts
  | ⟨.word s, span⟩ :: ts => .ok ⟨⟨s, span⟩, ts, by simp⟩
  | ts => .error (.here ts [.identifier])

def closing? (close : Punctuation) (ts : Tokens) : Option (Parsed Span ts) :=
  match h : skipTrivia ts with
  | t :: rest =>
    if t.value.isMark close then some ⟨t.span, rest, lt_of_skipTrivia h⟩ else none
  | [] => none

inductive Continuation (ts : Tokens)
  | closed (span : Span) (rest : Tokens) (shorter : rest.length < ts.length)
  | more (rest : Tokens) (shorter : rest.length < ts.length)

def readContinuation (close : Punctuation) (ts : Tokens) : Except Fault (Continuation ts) :=
  match h : skipTrivia ts with
  | t :: rest =>
    if t.value.isMark .comma then .ok (.more rest (lt_of_skipTrivia h))
    else if t.value.isMark close then .ok (.closed t.span rest (lt_of_skipTrivia h))
    else .error (.here (t :: rest) [.mark close])
  | [] => .error (.here [] [.mark close])

-- ---------------------------------------------------------------------------
-- Values
-- ---------------------------------------------------------------------------

/-- Items of a list, and the place of the mark that closes it. -/
abbrev Items (α : Type) := List α × Span

mutual

/-- Reads a value. The tokens must begin with it. -/
def readValue (ts : Tokens) : Outcome (Spanned Value) ts :=
  match ts with
  | ⟨.quoted kind s, span⟩ :: ts => .ok ⟨⟨.quoted kind s, span⟩, ts, by simp⟩
  | ⟨.number x, span⟩ :: ts => .ok ⟨⟨.number x, span⟩, ts, by simp⟩
  | ⟨.word name, span⟩ :: ⟨.punctuation .leftBracket, _⟩ :: ts => begunValue ts do
    let ⟨(typeArgs, _), ts₁, _⟩ ← readItems .rightBracket ts
    let ⟨_, ts₂, _⟩ ← readMark .leftParen ts₁
    let ⟨(args, close), ts₃, _⟩ ← readItems .rightParen ts₂
    .ok ⟨⟨.call name typeArgs args, span.union close⟩, ts₃, lt_cons (lt_cons (by omega))⟩
  | ⟨.word name, span⟩ :: ⟨.punctuation .leftParen, _⟩ :: ts => begunValue ts do
    if name = "Object" then
      have := length_skipTrivia_le ts
      let ⟨⟨className, _⟩, ts₁, _⟩ ← readWord (skipTrivia ts)
      match ← readContinuation .rightParen ts₁ with
      | .closed close rest _ =>
        .ok ⟨⟨.object className [], span.union close⟩, rest, lt_cons (lt_cons (by omega))⟩
      | .more rest _ =>
        let ⟨(properties, close), ts₂, _⟩ ← readEntries .rightParen rest
        .ok ⟨⟨.object className properties, span.union close⟩, ts₂, lt_cons (lt_cons (by omega))⟩
    else
      let ⟨(args, close), ts₁, _⟩ ← readItems .rightParen ts
      .ok ⟨⟨.call name [] args, span.union close⟩, ts₁, lt_cons (lt_cons (by omega))⟩
  | ⟨.word s, span⟩ :: ts => .ok ⟨⟨.ofWord s, span⟩, ts, by simp⟩
  | ⟨.punctuation .leftBracket, span⟩ :: ts => begunValue ts do
    let ⟨(items, close), ts₁, _⟩ ← readItems .rightBracket ts
    .ok ⟨⟨.array items, span.union close⟩, ts₁, lt_cons (by omega)⟩
  | ⟨.punctuation .leftBrace, span⟩ :: ts => begunValue ts do
    let ⟨(entries, close), ts₁, _⟩ ← readEntries .rightBrace ts
    .ok ⟨⟨.dictionary entries, span.union close⟩, ts₁, lt_cons (by omega)⟩
  | ts => .error (.here ts [.mark .leftBrace, .value])
termination_by 2 * ts.length

/-- Reads values up to the closing mark. A comma may stand behind the last. -/
def readItems (close : Punctuation) (ts : Tokens) : Outcome (Items (Spanned Value)) ts :=
  match closing? close ts with
  | some ⟨span, rest, shorter⟩ => .ok ⟨([], span), rest, shorter⟩
  | none => do
    have := length_skipTrivia_le ts
    let ⟨item, ts₁, _⟩ ← readValue (skipTrivia ts)
    match ← readContinuation close ts₁ with
    | .closed span rest _ => .ok ⟨([item], span), rest, by omega⟩
    | .more rest _ =>
      let ⟨(items, span), ts₂, _⟩ ← readItems close rest
      .ok ⟨(item :: items, span), ts₂, by omega⟩
termination_by 2 * ts.length + 1

def readEntries (close : Punctuation) (ts : Tokens) :
    Outcome (Items (Spanned Value × Spanned Value)) ts :=
  match closing? close ts with
  | some ⟨span, rest, shorter⟩ => .ok ⟨([], span), rest, shorter⟩
  | none => do
    have := length_skipTrivia_le ts
    let ⟨key, ts₁, _⟩ ← readValue (skipTrivia ts)
    have := length_skipTrivia_le ts₁
    let ⟨_, ts₂, _⟩ ← readMark .colon (skipTrivia ts₁)
    have := length_skipTrivia_le ts₂
    let ⟨value, ts₃, _⟩ ← readValue (skipTrivia ts₂)
    match ← readContinuation close ts₃ with
    | .closed span rest _ => .ok ⟨([(key, value)], span), rest, by omega⟩
    | .more rest _ =>
      let ⟨(entries, span), ts₄, _⟩ ← readEntries close rest
      .ok ⟨((key, value) :: entries, span), ts₄, by omega⟩
termination_by 2 * ts.length + 1

end

-- ---------------------------------------------------------------------------
-- Sections
-- ---------------------------------------------------------------------------

/-- Reads `key = value`. Once the key is read the rest has to follow. -/
def readProperty (ts : Tokens) : Outcome Property ts := do
  let ⟨key, ts₁, _⟩ ← readWord ts
  begun ts₁ do
    have := length_skipTrivia_le ts₁
    let ⟨_, ts₂, _⟩ ← readMark .equals (skipTrivia ts₁)
    have := length_skipTrivia_le ts₂
    let ⟨value, ts₃, _⟩ ← readValue (skipTrivia ts₂)
    .ok ⟨⟨key, value⟩, ts₃, by omega⟩

def readAttributes (ts : Tokens) : Outcome (List Property) ts :=
  match closing? .rightBracket ts with
  | some ⟨_, rest, shorter⟩ => .ok ⟨[], rest, shorter⟩
  | none => do
    have := length_skipTrivia_le ts
    let ⟨first, ts₁, _⟩ ← readProperty (skipTrivia ts)
    let ⟨others, ts₂, _⟩ ← readAttributes ts₁
    .ok ⟨first :: others, ts₂, by omega⟩
termination_by ts.length

structure Lines (ts : Tokens) where
  properties : List Property
  rest : Tokens
  notLonger : rest.length ≤ ts.length

/-- Reads the lines below a header, as long as a key is next. -/
def readProperties (ts : Tokens) : Except Fault (Lines ts) :=
  match skipTrivia ts, length_skipTrivia_le ts with
  | ⟨.word s, span⟩ :: rest, _ => do
    let ⟨property, ts₁, _⟩ ← readProperty (⟨.word s, span⟩ :: rest)
    let ⟨properties, ts₂, _⟩ ← readProperties ts₁
    .ok ⟨property :: properties, ts₂, by omega⟩
  | _, _ => .ok ⟨[], ts, Nat.le_refl _⟩
termination_by ts.length

def readSection (ts : Tokens) : Outcome Section ts := begun ts do
  have := length_skipTrivia_le ts
  let ⟨tag, ts₁, _⟩ ← readWord (skipTrivia ts)
  let ⟨attributes, ts₂, _⟩ ← readAttributes ts₁
  let ⟨properties, ts₃, _⟩ ← readProperties ts₂
  .ok ⟨⟨tag, attributes, properties⟩, ts₃, by omega⟩

def readSections (ts : Tokens) : Except Fault (List Section) :=
  match h : skipTrivia ts with
  | [] => .ok []
  | ⟨.punctuation .leftBracket, _⟩ :: ts₁ => do
    have := lt_of_skipTrivia h
    let ⟨sectionRead, ts₂, _⟩ ← readSection ts₁
    let sections ← readSections ts₂
    .ok (sectionRead :: sections)
  | rest => .error (.here rest [])
termination_by ts.length

/-- The sections of a file of tokens, or the report of its first fault. -/
def Section.ofTokens (ts : Tokens) : Except Diagnostic (List Section) :=
  (readSections ts).mapError (Fault.diagnostic ts)

def Section.readAll (source : String) : Except Malformed (List Section) := do
  let ts ← Tokens.read source
  (Section.ofTokens ts).mapError fun d => ⟨[d]⟩

end SceneDiagram
