import SceneDiagram.Proofs.Token.Tiling

/-!
# Words that begin like numbers

A number is tried before a word and ends at a point or a dash, which a word may hold
(`1-up`, `inf.x`). `Tokens.read_word` says for which words that matters: a word is one token
exactly if neither stands behind the longest number literal that it begins with.
-/

namespace SceneDiagram

/-- Do the characters stand in the text as they may in a key or bare word? -/
inductive WordShaped : List Char → Prop
  | mk : isWordStart c → (∀ d ∈ cs, isWordChar d) → WordShaped (c :: cs)

variable {w : List Char}

theorem isWordChar_of_isWordStart (h : isWordStart c) : isWordChar c := by
  rw [isWordStart, Bool.or_eq_true] at h
  rcases h with h | h <;> simp [isWordChar, h]

theorem WordShaped.chars (h : WordShaped w) : ∀ d ∈ w, isWordChar d := by
  cases h with
  | mk hc hw => exact List.forall_mem_cons.mpr ⟨isWordChar_of_isWordStart hc, hw⟩

theorem joinsWord_iff (h : isWordChar c) : Number.joinsWord c ↔ c ≠ '.' ∧ c ≠ '-' := by
  have hpoint : Number.joinsWord '.' = false := by decide +kernel
  have hdash : Number.joinsWord '-' = false := by decide +kernel
  constructor
  · refine fun hjoins => ⟨?_, ?_⟩ <;>
    · rintro rfl
      simp_all
  · rintro ⟨hc, hc'⟩
    simpa [isWordChar, Number.joinsWord, hc, hc'] using h

theorem WordShaped.spelling_iff (h : WordShaped w) :
    Spelling (.word (String.ofList w)) w [] ↔ Number.read? w = none := by
  cases h with
  | @mk c w hc hw =>
    constructor
    · intro hspell
      generalize ht : Token.word _ = t at hspell
      generalize hcs : c :: w = cs at hspell ⊢
      cases hspell with
      | word _ _ _ hread => rwa [List.append_nil] at hread
      | _ => cases ht
    · exact fun hread => .word hc hw (by simp) (by simpa using hread)

namespace Tokens

theorem cover_singleton : Cover start w [⟨t, s⟩] ↔
    w ≠ [] ∧ Spelling t w [] ∧ s = ⟨start, start + byteLength w⟩ := by
  constructor
  · intro h
    cases h with
    | cons hne hspell hrest =>
      cases hrest
      rw [List.append_nil]
      exact ⟨hne, hspell, rfl⟩
  · rintro ⟨hne, hspell, rfl⟩
    have hcover : Cover start (w ++ []) [⟨t, ⟨start, start + byteLength w⟩⟩] :=
      .cons hne hspell .nil
    rwa [List.append_nil] at hcover

/-- A text that is written like a word, and is no number as a whole, is one word exactly if
no point or dash stands behind the longest number literal that it begins with. -/
theorem read_word {w : String} (hshape : WordShaped w.toList) (hwhole : ¬ Number.Literal w.toList) :
    Tokens.read w = .ok [⟨.word w, ⟨0, w.utf8ByteSize⟩⟩] ↔
      ∀ v rest, w.toList = v ++ rest → Number.Longest Number.Literal w.toList v →
        rest.head? ≠ some '.' ∧ rest.head? ≠ some '-' := by
  have hne : w.toList ≠ [] := by
    intro heq
    rw [heq] at hshape
    cases hshape
  have hcover : Tokens.read w = .ok [⟨.word w, ⟨0, w.utf8ByteSize⟩⟩] ↔
      Number.read? w.toList = none := by
    rw [read_ok, cover_singleton, ← hshape.spelling_iff]
    simp [hne, byteLength_toList]
  rw [hcover, Number.read?_eq_none_iff]
  refine forall₄_congr fun v rest heq hv => ?_
  cases rest with
  | nil =>
    rw [List.append_nil] at heq
    exact absurd (heq ▸ hv.spelled) hwhole
  | cons c rest =>
    have hc : isWordChar c := hshape.chars c (by simp [heq])
    simpa using joinsWord_iff hc

theorem read_word_slash :
    WordShaped "0/name".toList ∧ ¬ Number.Literal "0/name".toList ∧
      Tokens.read "0/name" = .ok [⟨.word "0/name", ⟨0, 6⟩⟩] := by
  have hshape : WordShaped "0/name".toList :=
    .mk (c := '0') (by decide +kernel) (List.all_eq_true.mp (by decide +kernel))
  have hwhole : ¬ Number.Literal "0/name".toList := by decide +kernel
  refine ⟨hshape, hwhole, (read_word hshape hwhole).mpr fun v rest heq hv => ?_⟩
  have hlength : v.length = 1 := hv.length_eq (by decide +kernel)
  have hrest : rest = ("0/name".toList).drop 1 := by rw [heq, ← hlength, List.drop_left]
  rw [hrest]
  decide +kernel

theorem not_read_word : ¬ ∀ w : String, WordShaped w.toList → ¬ Number.Literal w.toList →
    Tokens.read w = .ok [⟨.word w, ⟨0, w.utf8ByteSize⟩⟩] := by
  intro h
  have hshape : WordShaped "1-up".toList :=
    .mk (c := '1') (by decide +kernel) (List.all_eq_true.mp (by decide +kernel))
  have hread := h "1-up" hshape (by decide +kernel)
  have hnone : (Tokens.read "1-up").toOption.isNone := by decide +kernel
  rw [hread] at hnone
  cases hnone

end Tokens

end SceneDiagram
