import SceneDiagram.Proofs.Section.Joining

/-!
# Putting a text in quotes

`Tokens.read_enclosed`: a text that is put in quotes, a backslash before every quote and
every backslash in it, is read as one token that stands for it, wherever the quotes stand
and whatever follows them.
-/

namespace SceneDiagram

namespace QuotedBody

def escape (s : List Char) : List Char :=
  s.flatMap fun c => if c = '"' ∨ c = '\\' then ['\\', c] else [c]

theorem spells_escape (s : List Char) : Spells (escape s) s := by
  induction s with
  | nil => exact .nil
  | cons c s ih =>
    rw [escape, List.flatMap_cons, ← escape]
    split
    · next hc =>
      -- Neither a quote nor a backslash has another meaning behind a backslash.
      have hself : unescape c = c := by rcases hc with rfl | rfl <;> rfl
      have := Spells.escaped (c := c) ih
      rwa [hself] at this
    · next hc =>
      rw [not_or] at hc
      exact .plain hc.1 hc.2 ih

end QuotedBody

def Quote.enclose (kind : Quote) (s : String) : String :=
  kind.mark ++ "\"" ++ String.ofList (QuotedBody.escape s.toList) ++ "\""

theorem Quote.toList_enclose (kind : Quote) (s : String) :
    (kind.enclose s).toList = kind.opening ++ QuotedBody.escape s.toList ++ ['"'] := by
  simp [enclose, opening_eq]

theorem Spelling.enclose (kind : Quote) (s : String) (rest : List Char) :
    Spelling (.quoted kind s) (kind.enclose s).toList rest := by
  have hquoted : Spelling (.quoted kind (String.ofList s.toList))
      (kind.opening ++ QuotedBody.escape s.toList ++ ['"']) rest :=
    .quoted (QuotedBody.spells_escape s.toList)
  rwa [String.ofList_toList, ← Quote.toList_enclose] at hquoted

namespace Tokens

/-- A text in quotes is one token that holds the text, and what follows is read as it is on
its own. -/
theorem read_enclosed (kind : Quote) (s : String) (h : Tokens.read rest = .ok ts) :
    let length := (kind.enclose s).utf8ByteSize
    Tokens.read (kind.enclose s ++ rest) =
      .ok (⟨.quoted kind s, ⟨0, length⟩⟩ :: ts.moved (.shifted length)) := by
  intro length
  rw [read_ok] at h ⊢
  have hne : (kind.enclose s).toList ≠ [] := by simp [Quote.toList_enclose]
  have hlength : length = byteLength (kind.enclose s).toList := (byteLength_toList _).symm
  have hcover := Cover.cons hne (.enclose kind s rest.toList) (h.shifted _)
  rwa [Nat.zero_add, ← hlength, ← String.toList_append] at hcover

/-- A text that looks like the end of a quoted text and an escape, with quotes right behind it. -/
theorem read_enclosed_backslashes :
    Tokens.read "\"\"" = .ok [⟨.quoted .plain "", ⟨0, 2⟩⟩] ∧
    Quote.enclose .path "\\\"n" = "^\"\\\\\\\"n\"" ∧
    Tokens.read "^\"\\\\\\\"n\"\"\"" =
      .ok [⟨.quoted .path "\\\"n", ⟨0, 8⟩⟩, ⟨.quoted .plain "", ⟨8, 10⟩⟩] := by
  have hempty : Spelling (.quoted .plain "") ['"', '"'] [] := .quoted .nil
  have hrest : Tokens.read "\"\"" = .ok [⟨.quoted .plain "", ⟨0, 2⟩⟩] :=
    read_ok.mpr (.cons (by simp) hempty .nil)
  have hwritten : Quote.enclose .path "\\\"n" = "^\"\\\\\\\"n\"" := by decide +kernel
  have hread := read_enclosed .path "\\\"n" hrest
  rw [hwritten] at hread
  exact ⟨hrest, hwritten, hread⟩

end Tokens

end SceneDiagram
