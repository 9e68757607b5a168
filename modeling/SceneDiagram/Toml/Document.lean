import SceneDiagram.Toml.Value

/-!
# Reading documents

A document has one definition or header to a line. A header opens a table, or
the next table of a series, for the definitions below it.
-/

namespace SceneDiagram.Toml

inductive Line
  | define (key : Key) (data : Data)
  | openTable (key : Key)
  | openNext (key : Key)

def closedKey (cs : List Char) : Option (Read Key cs) := do
  let k ← key (cs.dropWhile isBlank)
  match h : k.rest with
  | ']' :: more =>
    some ⟨k.value, more, Nat.lt_of_lt_of_le (k.lt_of_rest h) (length_dropWhile_le isBlank cs)⟩
  | _ => none

def line (cs : List Char) : Option (Read Line cs) :=
  match cs with
  | '[' :: '[' :: rest => do
    let k ← closedKey rest
    match h : k.rest with
    | ']' :: more => some (Read.behind (.behind ⟨.openNext k.value, more, k.lt_of_rest h⟩ '[') '[')
    | _ => none
  | '[' :: rest => (closedKey rest).map fun k => (k.map .openTable).behind '['
  | cs => (pair _ (length_dropWhile_le isBlank) (value maxDepth) cs).map
    (·.map fun (k, d) => .define k d)

def endsLine (cs : List Char) : Bool :=
  match cs.dropWhile isBlank with
  | [] | '#' :: _ => true
  | rest => (afterBreak? rest).isSome

def lines (cs : List Char) : Option (List Line) :=
  match h : skipSpace false cs with
  | [] => some []
  | c :: rest => do
    let first ← line (c :: rest)
    have := Nat.lt_of_lt_of_le first.shorter (lt_of_skipSpace h)
    if endsLine first.rest then
      let others ← lines first.rest
      return first.value :: others
    else none
termination_by cs.length

/-- A document and the table that its next definitions go to. -/
structure Draft where
  root : Table := .empty
  target : List String := []

def Draft.add? (d : Draft) : Line → Option Draft
  | .define key data => do
    let root ← d.root.changeAt? false .header d.target fun _ t => t.define? key data
    return { d with root }
  | .openTable key => do return ⟨← d.root.openTable? key, key.path ++ [key.name]⟩
  | .openNext key => do return ⟨← d.root.openNext? key, key.path ++ [key.name]⟩

/-- The data of a document. A byte order mark in front does not count. -/
def read? (text : String) : Option Data := do
  let cs := match text.toList with
    | '\ufeff' :: cs => cs
    | cs => cs
  let draft ← (← lines cs).foldlM Draft.add? {}
  return .table draft.root.entries

end SceneDiagram.Toml
