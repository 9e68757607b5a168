import SceneDiagram.Token

/-!
# Values

What stands on the right of a key in a scene text. Every part keeps its place
in the source; two values are the same when they agree in everything else.
-/

namespace SceneDiagram

inductive Value
  | quoted (kind : Quote) (text : String)
  | number (value : Float)
  | bool (value : Bool)
  | null
  /-- A bare word without a meaning of its own. -/
  | word (text : String)
  /-- A constructor call, such as `Array[int]([1, 2])`. -/
  | call (name : String) (typeArgs args : List (Spanned Value))
  | object (className : String) (properties : List (Spanned Value × Spanned Value))
  | array (items : List (Spanned Value))
  | dictionary (entries : List (Spanned Value × Spanned Value))
  deriving Repr

namespace Value

def ofWord (s : String) : Value :=
  if s = "true" then .bool true
  else if s = "false" then .bool false
  else if s = "null" then .null
  else .word s

def quotedText? : Value → Option String
  | .quoted _ s => some s
  | _ => none

def scalarText? : Value → Option String
  | .quoted _ s | .word s => some s
  | .number x => some (Decimal.text x)
  | _ => none

def resourceId? : Value → Option String
  | .call "ExtResource" _ [id] => id.value.scalarText?
  | _ => none

mutual

/-- Equality up to places; numbers compare as numbers do. -/
def same : Value → Value → Bool
  | .quoted k s, .quoted l t => k == l && s == t
  | .number x, .number y => x == y
  | .bool b, .bool c => b == c
  | .null, .null => true
  | .word s, .word t => s == t
  | .call m ss xs, .call n ts ys => m == n && sameItems ss ts && sameItems xs ys
  | .object m xs, .object n ys => m == n && sameEntries xs ys
  | .array xs, .array ys => sameItems xs ys
  | .dictionary xs, .dictionary ys => sameEntries xs ys
  | _, _ => false

def sameItems : List (Spanned Value) → List (Spanned Value) → Bool
  | [], [] => true
  | ⟨x, _⟩ :: xs, ⟨y, _⟩ :: ys => same x y && sameItems xs ys
  | _, _ => false

def sameEntries :
    List (Spanned Value × Spanned Value) → List (Spanned Value × Spanned Value) → Bool
  | [], [] => true
  | (⟨k, _⟩, ⟨x, _⟩) :: xs, (⟨l, _⟩, ⟨y, _⟩) :: ys =>
    same k l && same x y && sameEntries xs ys
  | _, _ => false

end

end Value

/-- A line `key = value`, or an attribute of a header. -/
structure Property where
  key : Spanned String
  value : Spanned Value
  deriving Repr

def Property.same (p q : Property) : Bool :=
  p.key.value == q.key.value && p.value.value.same q.value.value

def Property.sameAll : List Property → List Property → Bool
  | [], [] => true
  | p :: ps, q :: qs => p.same q && sameAll ps qs
  | _, _ => false

/-- A section: its header `[tag key=value …]` and the lines below it. -/
structure Section where
  tag : Spanned String
  attributes : List Property
  properties : List Property
  deriving Repr

namespace Section

def attribute? (s : Section) (key : String) : Option (Spanned Value) :=
  (s.attributes.find? (·.key.value == key)).map (·.value)

/-- The header's value for a key or, without one, that of the first line. -/
def lookup? (s : Section) (key : String) : Option (Spanned Value) :=
  s.attribute? key <|> (s.properties.find? (·.key.value == key)).map (·.value)

def same (s t : Section) : Bool :=
  s.tag.value == t.tag.value && Property.sameAll s.attributes t.attributes
    && Property.sameAll s.properties t.properties

def sameAll : List Section → List Section → Bool
  | [], [] => true
  | s :: ss, t :: ts => s.same t && sameAll ss ts
  | _, _ => false

end Section

end SceneDiagram
