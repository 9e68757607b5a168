import SceneDiagram.Toml.Scalar
import SceneDiagram.Toml.Table

/-!
# Keys and values

A value is a string, a bare value, an array or a table in braces. Arrays and
tables in braces go over line breaks and comments, also around an equals sign,
end with a comma or without, and nest up to a limit. Keys have as many names at
most, on one line.
-/

namespace SceneDiagram.Toml

-- ---------------------------------------------------------------------------
-- Space
-- ---------------------------------------------------------------------------

/-- The text without the blanks, line breaks and comments in front, from within
a comment or outside one. -/
def skipSpace (comment : Bool) : List Char → List Char
  | [] => []
  | '\n' :: cs | '\r' :: '\n' :: cs => skipSpace false cs
  | c :: cs =>
    if comment then if isPlain c then skipSpace true cs else c :: cs
    else if isBlank c then skipSpace false cs
    else if c = '#' then skipSpace true cs
    else c :: cs

theorem length_skipSpace (comment : Bool) (cs : List Char) :
    (skipSpace comment cs).length ≤ cs.length := by
  fun_induction skipSpace comment cs <;> simp_all <;> omega

theorem lt_of_skip {skip : List Char → List Char} {cs rest : List Char} {c : Char}
    (length_skip : ∀ cs, (skip cs).length ≤ cs.length) (h : skip cs = c :: rest) :
    rest.length < cs.length := by
  have := length_skip cs
  rw [h] at this
  exact this

theorem lt_of_skipSpace {comment : Bool} {cs rest : List Char} {c : Char}
    (h : skipSpace comment cs = c :: rest) : rest.length < cs.length :=
  lt_of_skip (length_skipSpace comment) h

-- ---------------------------------------------------------------------------
-- Keys
-- ---------------------------------------------------------------------------

def isKeyChar (c : Char) : Bool := c.isAlphanum || c == '_' || c == '-'

def name (cs : List Char) : Option (Read String cs) :=
  let word := cs.takeWhile isKeyChar
  if h : 0 < word.length then
    have := length_takeWhile_le isKeyChar cs
    some ⟨String.ofList word, cs.drop word.length, by simp [word] at *; omega⟩
  else shortString cs

/-- How many names a key may have, and how deep brackets and braces may nest. -/
def maxDepth : Nat := 80

def dotted (cs : List Char) : Option (Read Key cs) := do
  let first ← name cs
  have := first.shorter
  have := length_dropWhile_le isBlank first.rest
  match h : first.rest.dropWhile isBlank with
  | '.' :: more =>
    have : more.length < cs.length := by simp [h] at this; omega
    have := length_dropWhile_le isBlank more
    let k ← dotted (more.dropWhile isBlank)
    return k.within _ (fun k => ⟨first.value :: k.path, k.name⟩) (by omega)
  | rest => some ⟨⟨[], first.value⟩, rest, by simp [h] at this; omega⟩
termination_by cs.length

def key (cs : List Char) : Option (Read Key cs) :=
  (dotted cs).filter fun k => k.value.path.length < maxDepth

-- ---------------------------------------------------------------------------
-- Values
-- ---------------------------------------------------------------------------

def items {α : Type} (close : Char) (item : (cs : List Char) → Option (Read α cs))
    (cs : List Char) : Option (Read (List α) cs) :=
  match h : skipSpace false cs with
  | [] => none
  | c :: rest =>
    have closer := lt_of_skipSpace h
    if c = close then some ⟨[], rest, closer⟩
    else match item (c :: rest) with
      | none => none
      | some first =>
        match h' : skipSpace false first.rest with
        | [] => none
        | d :: more =>
          have further := Nat.lt_of_lt_of_le (lt_of_skipSpace h')
            (Nat.le_trans (Nat.le_of_lt_succ first.shorter) (Nat.le_of_lt closer))
          if d = close then some ⟨[first.value], more, further⟩
          else if d = ',' then
            (items close item more).map (·.within _ (first.value :: ·) (Nat.le_of_lt further))
          else none
termination_by cs.length

/-- A key and a value with an equals sign between them. Around the sign stands what
can be skipped: blanks on a line, any space in braces. -/
def pair (skip : List Char → List Char) (length_skip : ∀ cs, (skip cs).length ≤ cs.length)
    (value : (cs : List Char) → Option (Read Data cs)) (cs : List Char) :
    Option (Read (Key × Data) cs) := do
  let k ← key cs
  match h : skip k.rest with
  | '=' :: rest =>
    have : rest.length < k.rest.length := lt_of_skip length_skip h
    let v ← value (skip rest)
    return v.within _ (k.value, ·) (Nat.le_trans (length_skip rest)
      (Nat.le_of_lt (Nat.lt_trans this k.shorter)))
  | _ => none

def value (depth : Nat) (cs : List Char) : Option (Read Data cs) :=
  match depth, cs with
  | 0, '[' :: _ | 0, '\x7b' :: _ => none
  | depth + 1, '[' :: rest =>
    (items ']' (value depth) rest).map fun r => (r.map .list).behind '['
  | depth + 1, '\x7b' :: rest => do
    let r ← items '\x7d' (pair (skipSpace false) (length_skipSpace false) (value depth)) rest
    let t ← Table.ofPairs? r.value
    return (r.map fun _ => .table t.entries).behind '\x7b'
  | _, cs =>
    if cs.head? = some '"' ∨ cs.head? = some '\'' then
      (string cs).map (·.map .text)
    else bare cs

end SceneDiagram.Toml
