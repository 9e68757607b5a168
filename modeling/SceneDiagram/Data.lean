/-!
# Plain data

What configuration and manifest files hold once their notation is read: texts,
numbers, flags, lists, and tables of named entries.
-/

namespace SceneDiagram

inductive Data
  | text (value : String)
  | integer (value : Int)
  | flag (value : Bool)
  | absent
  /-- A date, a time or both: a record of parts that no setting has. -/
  | date
  /-- A value of a kind that no setting has, such as a fraction. -/
  | other
  | list (items : List Data)
  | table (entries : List (String × Data))
  deriving Repr, Inhabited

namespace Data

def text? : Data → Option String
  | .text s => some s
  | _ => none

def flag? : Data → Option Bool
  | .flag b => some b
  | _ => none

def listOf? {α : Type} (item? : Data → Option α) : Data → Option (List α)
  | .list items => items.mapM item?
  | _ => none

/-- The value as a record of named entries: a table, or the values of the first
entries in order. -/
def record? (names : List String) : Data → Option (List (String × Data))
  | .table entries => some entries
  | .list items => some (names.zip items)
  | .date => some []
  | _ => none

def isAbsent : Data → Bool
  | .absent => true
  | _ => false

def isEmpty : Data → Bool
  | .list items => items.isEmpty
  | .table entries => entries.isEmpty
  | _ => false

/-- The name that the value chooses: a text, or the one name of a table with nothing
under it. Notations differ in what they write for nothing. -/
def choice? (isNothing : Data → Bool) : Data → Option String
  | .text s => some s
  | .table [(name, d)] => if isNothing d then some name else none
  | _ => none

end Data

abbrev Entries := List (String × Data)

namespace Entries

def required? {α : Type} (es : Entries) (key : String) (read? : Data → Option α) : Option α :=
  (es.lookup key).bind read?

/-- An entry that has a value of its own when it is left out. Where it stands it
has to be well formed. -/
def orElse? {α : Type} (es : Entries) (key : String) (preset : α) (read? : Data → Option α) :
    Option α :=
  match es.lookup key with
  | none => some preset
  | some d => read? d

def optional? {α : Type} (es : Entries) (key : String) (read? : Data → Option α) :
    Option (Option α) :=
  match es.lookup key with
  | none | some .absent => some none
  | some d => (read? d).map some

end Entries

end SceneDiagram
