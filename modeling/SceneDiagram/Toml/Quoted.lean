/-!
# Quoted text

A string stands in single or double quotes, on one line, or in three of them,
over several lines. Double quotes read escapes; in three of them a backslash at
the end of a line takes away the line break and the blanks behind it.
-/

namespace SceneDiagram.Toml

-- ---------------------------------------------------------------------------
-- Readings
-- ---------------------------------------------------------------------------

/-- What was read from the front of a text, and the rest of it. -/
structure Read (α : Type) (cs : List Char) where
  value : α
  rest : List Char
  shorter : rest.length < cs.length

def Read.within {α β : Type} {ds : List Char} (r : Read α ds) (cs : List Char) (f : α → β)
    (h : ds.length ≤ cs.length) : Read β cs :=
  ⟨f r.value, r.rest, Nat.lt_of_lt_of_le r.shorter h⟩

def Read.map {α β : Type} {cs : List Char} (r : Read α cs) (f : α → β) : Read β cs :=
  ⟨f r.value, r.rest, r.shorter⟩

def Read.behind {α : Type} {cs : List Char} (r : Read α cs) (c : Char) : Read α (c :: cs) :=
  ⟨r.value, r.rest, Nat.lt_succ_of_lt r.shorter⟩

theorem Read.lt_of_rest {α : Type} {cs more : List Char} {c : Char} (r : Read α cs)
    (h : r.rest = c :: more) : more.length < cs.length := by
  have := r.shorter
  rw [h] at this
  exact Nat.lt_of_succ_lt this

def isBlank (c : Char) : Bool := c == ' ' || c == '\t'

def isPlain (c : Char) : Bool := c == '\t' || (' ' ≤ c && c != '\x7f')

theorem length_dropWhile_le {α : Type} (p : α → Bool) (cs : List α) :
    (cs.dropWhile p).length ≤ cs.length := (List.dropWhile_sublist p).length_le

theorem length_takeWhile_le {α : Type} (p : α → Bool) (cs : List α) :
    (cs.takeWhile p).length ≤ cs.length := (List.takeWhile_sublist p).length_le

def afterBreak? : List Char → Option (List Char)
  | '\n' :: cs | '\r' :: '\n' :: cs => some cs
  | _ => none

-- ---------------------------------------------------------------------------
-- Escapes
-- ---------------------------------------------------------------------------

def hexDigit? (c : Char) : Option Nat :=
  if '0' ≤ c ∧ c ≤ '9' then some (c.toNat - '0'.toNat)
  else if 'a' ≤ c ∧ c ≤ 'f' then some (c.toNat - 'a'.toNat + 10)
  else if 'A' ≤ c ∧ c ≤ 'F' then some (c.toNat - 'A'.toNat + 10)
  else none

def hexValue? (cs : List Char) : Option Nat :=
  (cs.mapM hexDigit?).map fun ds => ds.foldl (fun n d => 16 * n + d) 0

def coded? (digits : Nat) (cs : List Char) : Option (Char × List Char) := do
  let n ← hexValue? (cs.take digits)
  if digits ≤ cs.length ∧ n.isValidChar then some (Char.ofNat n, cs.drop digits) else none

def escape? : List Char → Option (Char × List Char)
  | 'b' :: cs => some ('\x08', cs)
  | 't' :: cs => some ('\t', cs)
  | 'n' :: cs => some ('\n', cs)
  | 'f' :: cs => some ('\x0c', cs)
  | 'r' :: cs => some ('\r', cs)
  | 'e' :: cs => some ('\x1b', cs)
  | '"' :: cs => some ('"', cs)
  | '\\' :: cs => some ('\\', cs)
  | 'x' :: cs => coded? 2 cs
  | 'u' :: cs => coded? 4 cs
  | 'U' :: cs => coded? 8 cs
  | _ => none

theorem length_coded? {digits : Nat} {cs rest : List Char} {c : Char}
    (h : coded? digits cs = some (c, rest)) : rest.length ≤ cs.length := by
  simp only [coded?, Option.bind_eq_bind, Option.bind_eq_some_iff] at h
  obtain ⟨n, -, h⟩ := h
  split at h
  · cases h; simp
  · cases h

theorem length_escape? {cs rest : List Char} {c : Char} (h : escape? cs = some (c, rest)) :
    rest.length < cs.length := by
  unfold escape? at h
  split at h
  case h_9 | h_10 | h_11 => simpa using Nat.lt_succ_of_le (length_coded? h)
  case h_12 => cases h
  all_goals cases h; simp

-- ---------------------------------------------------------------------------
-- Strings
-- ---------------------------------------------------------------------------

def basic (cs : List Char) : Option (Read (List Char) cs) :=
  match cs with
  | [] => none
  | '"' :: rest => some ⟨[], rest, by simp⟩
  | '\\' :: rest =>
    match h : escape? rest with
    | none => none
    | some (c, more) =>
      have := length_escape? h
      (basic more).map (·.within _ (c :: ·) (by simp; omega))
  | c :: rest =>
    if isPlain c then (basic rest).map (·.within _ (c :: ·) (by simp)) else none
termination_by cs.length

def literal : (cs : List Char) → Option (Read (List Char) cs)
  | [] => none
  | c :: rest =>
    if c = '\'' then some ⟨[], rest, by simp⟩
    else if isPlain c then (literal rest).map (·.within _ (c :: ·) (by simp))
    else none

/-- The end of a text in three quotes. Up to two more quotes belong to the text. -/
def closing? (quote : Char) : (cs : List Char) → Option (Read (List Char) cs)
  | a :: b :: c :: rest =>
    if a = quote ∧ b = quote ∧ c = quote then
      let more := (rest.take 2).takeWhile (· == quote)
      some ⟨more, rest.drop more.length, by simp; omega⟩
    else none
  | _ => none

/-- The text up to three double quotes. While `trimming`, blanks and line breaks
do not count. -/
def longBasic (trimming : Bool) (cs : List Char) : Option (Read (List Char) cs) :=
  match closing? '"' cs with
  | some r => some r
  | none =>
    match cs with
    | [] => none
    | '\r' :: '\n' :: rest =>
      if trimming then (longBasic true rest).map (·.within _ id (by simp; omega))
      else (longBasic false rest).map (·.within _ ('\r' :: '\n' :: ·) (by simp; omega))
    | '\\' :: rest =>
      if (afterBreak? (rest.dropWhile isBlank)).isSome then
        (longBasic true rest).map (·.within _ id (by simp))
      else
        match h : escape? rest with
        | none => none
        | some (c, more) =>
          have := length_escape? h
          (longBasic false more).map (·.within _ (c :: ·) (by simp; omega))
    | c :: rest =>
      if trimming ∧ (isBlank c ∨ c = '\n') then
        (longBasic true rest).map (·.within _ id (by simp))
      else if isPlain c ∨ c = '\n' then
        (longBasic false rest).map (·.within _ (c :: ·) (by simp))
      else none
termination_by cs.length

def longLiteral (cs : List Char) : Option (Read (List Char) cs) :=
  match closing? '\'' cs with
  | some r => some r
  | none =>
    match cs with
    | [] => none
    | '\r' :: '\n' :: rest =>
      (longLiteral rest).map (·.within _ ('\r' :: '\n' :: ·) (by simp; omega))
    | c :: rest =>
      if isPlain c ∨ c = '\n' then (longLiteral rest).map (·.within _ (c :: ·) (by simp)) else none
termination_by cs.length

def dropBreak (cs : List Char) : List Char := (afterBreak? cs).getD cs

theorem length_dropBreak (cs : List Char) : (dropBreak cs).length ≤ cs.length := by
  unfold dropBreak afterBreak?
  split
  · simp
  · simp; omega
  · simp

def shortString (cs : List Char) : Option (Read String cs) :=
  match cs with
  | '"' :: rest => (basic rest).map (·.within _ String.ofList (by simp))
  | '\'' :: rest => (literal rest).map (·.within _ String.ofList (by simp))
  | _ => none

def string (cs : List Char) : Option (Read String cs) :=
  match cs with
  | '"' :: '"' :: '"' :: rest =>
    (longBasic false (dropBreak rest)).map
      (·.within _ String.ofList (by have := length_dropBreak rest; simp; omega))
  | '\'' :: '\'' :: '\'' :: rest =>
    (longLiteral (dropBreak rest)).map
      (·.within _ String.ofList (by have := length_dropBreak rest; simp; omega))
  | cs => shortString cs

end SceneDiagram.Toml
