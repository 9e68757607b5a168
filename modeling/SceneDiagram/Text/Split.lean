/-!
# Splitting and joining text

Splitting at a separator keeps every piece, empty ones included, so that
joining the pieces with the separator gives the text back.
-/

namespace SceneDiagram.Text

/-- The pieces between separators: always one more than there are separators. -/
def pieces (sep : Char) : List Char → List (List Char)
  | [] => [[]]
  | c :: cs =>
    if c = sep then [] :: pieces sep cs
    else match pieces sep cs with
      | [] => [[c]]
      | p :: ps => (c :: p) :: ps

def split (sep : Char) (s : String) : List String :=
  (pieces sep s.toList).map String.ofList

def join (sep : String) : List String → String
  | [] => ""
  | [s] => s
  | s :: t :: rest => s ++ sep ++ join sep (t :: rest)

def after? (lead text : List Char) : Option (List Char) :=
  match lead, text with
  | [], text => some text
  | _ :: _, [] => none
  | l :: lead, c :: text => if l = c then after? lead text else none

def stripLead? (lead s : String) : Option String :=
  (after? lead.toList s.toList).map String.ofList

def stripTail? (tail s : String) : Option String :=
  (after? tail.toList.reverse s.toList.reverse).map fun cs => String.ofList cs.reverse

def repeated (n : Nat) (s : String) : String := join "" (List.replicate n s)

theorem pieces_ne_nil (sep : Char) (cs : List Char) : pieces sep cs ≠ [] := by
  cases cs with
  | nil => simp [pieces]
  | cons c cs =>
    unfold pieces
    split
    · simp
    · split <;> simp

theorem toList_join_cons (sep : String) (c : Char) (p : List Char) (ps : List String) :
    (join sep (String.ofList (c :: p) :: ps)).toList =
      c :: (join sep (String.ofList p :: ps)).toList := by
  cases ps <;> simp [join]

theorem toList_join_pieces (sep : Char) (cs : List Char) :
    (join (String.singleton sep) ((pieces sep cs).map String.ofList)).toList = cs := by
  induction cs with
  | nil => simp [pieces, join]
  | cons c cs ih =>
    unfold pieces
    split
    · subst c
      cases h : pieces sep cs with
      | nil => exact absurd h (pieces_ne_nil sep cs)
      | cons p ps => simpa [join, h] using ih
    · split
      · next h => exact absurd h (pieces_ne_nil sep cs)
      · next p ps h =>
        rw [List.map_cons, toList_join_cons]
        simpa [h] using ih

theorem join_split (sep : Char) (s : String) : join (String.singleton sep) (split sep s) = s := by
  rw [← String.toList_inj, split, toList_join_pieces]

theorem after?_append (lead text : List Char) : after? lead (lead ++ text) = some text := by
  induction lead with
  | nil => simp [after?]
  | cons l lead ih => simp [after?, ih]

end SceneDiagram.Text
