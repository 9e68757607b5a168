import SceneDiagram.Proofs.Section.Extent
import SceneDiagram.Proofs.Section.Moving
import SceneDiagram.Proofs.Token.Tiling

/-!
# Joining two files

`readAll_joined`: two files that are joined by a line break are read as the sections
of the first and behind them those of the second, which stand further on. No token of
the first reaches past the line break (`Spelling.append_line`), and no section does:
the line break opens no call, and what follows it is no key (`FileOf.append`).
-/

namespace SceneDiagram

open Text

-- ---------------------------------------------------------------------------
-- Tokens
-- ---------------------------------------------------------------------------

def Span.shifted (n : Nat) (s : Span) : Span := ⟨s.start + n, s.stop + n⟩

theorem keepsUnion_shifted (n : Nat) : KeepsUnion (Span.shifted n) := by
  intro s t
  simp only [Span.shifted, Span.union, Span.mk.injEq]
  omega

theorem head?_append_line {P : Char → Prop} (h : ∀ c ∈ rest.head?, P c) (hline : P '\n') :
    ∀ c ∈ (rest ++ '\n' :: us).head?, P c := by
  cases rest with
  | nil => simpa using hline
  | cons c rest => exact h

theorem Spelling.append_line (h : Spelling t w rest) (us : List Char) :
    Spelling t w (rest ++ '\n' :: us) := by
  have hend : Number.AtLineEnd ('\n' :: us) := by simp [Number.AtLineEnd]
  cases h with
  | comment hline hrest => exact .comment hline (head?_append_line hrest rfl)
  | quoted hraw => exact .quoted hraw
  | number hne hread =>
    refine .number hne ?_
    rwa [← List.append_assoc, Number.read?_append hend]
  | word hc hw hrest hn =>
    refine .word hc hw (head?_append_line hrest (isWordChar_of_isBlank rfl)) ?_
    rwa [← List.append_assoc, Number.read?_append hend]
  | punctuation => exact .punctuation
  | newline => exact .newline
  | blank hne hw hrest => exact .blank hne hw (head?_append_line hrest rfl)

namespace Tokens

theorem Cover.append_line (h : Cover start cs ts)
    (h' : Cover (start + byteLength cs) ('\n' :: us) ts') :
    Cover start (cs ++ '\n' :: us) (ts ++ ts') := by
  induction h with
  | nil => exact h'
  | cons hne hspell _ ih =>
    rw [byteLength_append, ← Nat.add_assoc] at h'
    rw [List.append_assoc]
    exact .cons hne (hspell.append_line us) (ih h')

theorem Cover.shifted (h : Cover start cs ts) (n : Nat) :
    Cover (start + n) cs (ts.moved (.shifted n)) := by
  induction h with
  | nil => exact .nil
  | cons hne hspell _ ih =>
    rw [Nat.add_right_comm] at ih
    have := Cover.cons hne hspell ih
    rwa [Nat.add_right_comm] at this

end Tokens

-- ---------------------------------------------------------------------------
-- Sections
-- ---------------------------------------------------------------------------

namespace Grammar

variable {ts us rest : Tokens}

theorem follows_append (h : ∀ t ∈ us.head?, ¬ OpensCall t) : Follows rest (rest ++ us) := by
  cases rest with
  | nil => exact .of_meek h
  | cons t rest => exact .of_head rfl

theorem Trivia.append (h : Trivia ts rest) (us : Tokens) : Trivia (ts ++ us) (rest ++ us) := by
  obtain ⟨c, rfl, hc⟩ := h.extent
  rw [List.append_assoc]
  exact hc _

theorem Trivia.trans (h : Trivia ts us) (h' : Trivia us rest) : Trivia ts rest := by
  induction h with
  | none => exact h'
  | skip ht _ ih => exact .skip ht (ih h')

theorem PropertyAt.append {p : Property} (hus : ∀ t ∈ us.head?, ¬ OpensCall t)
    (h : PropertyAt ts p rest) : PropertyAt (ts ++ us) p (rest ++ us) := by
  obtain ⟨c, -, rfl, hc⟩ := h.extent
  rw [List.append_assoc]
  exact hc _ (follows_append hus)

theorem PropertiesAt.append (hus : ∀ t ∈ us.head?, ¬ OpensCall t) (h : PropertiesAt ts ps rest) :
    PropertiesAt (ts ++ us) ps (rest ++ us) := by
  induction h with
  | nil => exact .nil
  | cons ht hp _ ih => exact .cons (ht.append us) (hp.append hus) ih

theorem SectionAt.append (hus : ∀ t ∈ us.head?, ¬ OpensCall t) (h : SectionAt ts s rest) :
    SectionAt (ts ++ us) s (rest ++ us) := by
  obtain ⟨htag, hattributes, hclosing, hproperties⟩ := h
  exact .mk (htag.append us) (hattributes.append hus) (hclosing.append us) (hproperties.append hus)

theorem SectionsAt.append (hus : ∀ t ∈ us.head?, ¬ OpensCall t) (h' : FileOf us ss')
    (h : SectionsAt ts ss []) : FileOf (ts ++ us) (ss ++ ss') := by
  -- The second file begins where nothing is left of the first.
  generalize hend : ([] : Tokens) = rest at h
  induction h with
  | nil =>
    subst hend
    exact h'
  | cons hs ht _ ih =>
    obtain ⟨ts₁, ht₁, hss⟩ := ih hend
    exact ⟨_, .none, .cons (hs.append hus) ((ht.append us).trans ht₁) hss⟩

/-- Two files one behind the other are a file, unless the second turns the last word of
the first into a call. -/
theorem FileOf.append (hus : ∀ t ∈ us.head?, ¬ OpensCall t) (h : FileOf ts ss)
    (h' : FileOf us ss') : FileOf (ts ++ us) (ss ++ ss') := by
  obtain ⟨ts₁, ht, hss⟩ := h
  obtain ⟨ts₂, ht₁, hss₁⟩ := hss.append hus h'
  exact ⟨ts₂, (ht.append us).trans ht₁, hss₁⟩

theorem fileOf_line (h : FileOf ts ss) : FileOf (⟨.newline, span⟩ :: ts) ss := by
  obtain ⟨ts₁, ht, hss⟩ := h
  exact ⟨ts₁, .skip rfl ht, hss⟩

end Grammar

namespace Section

theorem ofTokens_fileOf : ofTokens ts = .ok sections ↔ Grammar.FileOf ts sections :=
  Grammar.ofTokens_ok.trans Grammar.readSections_ok

/-- Two files that are joined by a line break: the tokens and the sections are those of
the first, and behind them those of the second, moved to where it stands now. -/
theorem readAll_joined {ta tb : Tokens} {sa sb : List Section}
    (ha : Tokens.read a = .ok ta) (hsa : ofTokens ta = .ok sa)
    (hb : Tokens.read b = .ok tb) (hsb : ofTokens tb = .ok sb) :
    let further := Span.shifted (a.utf8ByteSize + 1)
    let joined := ta ++ ⟨.newline, ⟨a.utf8ByteSize, a.utf8ByteSize + 1⟩⟩ :: tb.moved further
    Tokens.read (a ++ "\n" ++ b) = .ok joined ∧
      ofTokens joined = .ok (sa ++ sb.map (·.moved further)) ∧
      readAll (a ++ "\n" ++ b) = .ok (sa ++ sb.map (·.moved further)) := by
  intro further joined
  have htokens : Tokens.read (a ++ "\n" ++ b) = .ok joined := by
    rw [Tokens.read_ok] at ha hb ⊢
    have hline : Tokens.Cover (0 + byteLength a.toList) ('\n' :: b.toList)
        (⟨.newline, ⟨a.utf8ByteSize, a.utf8ByteSize + 1⟩⟩ :: tb.moved further) := by
      have hbehind := hb.shifted (a.utf8ByteSize + 1)
      rw [Nat.zero_add] at hbehind
      rw [Nat.zero_add, byteLength_toList]
      exact .cons (List.cons_ne_nil _ []) .newline hbehind
    simpa using ha.append_line hline
  have hsections : ofTokens joined = .ok (sa ++ sb.map (·.moved further)) := by
    rw [ofTokens_fileOf] at hsa hsb ⊢
    exact hsa.append (by simp [Grammar.OpensCall, Token.isMark])
      (Grammar.fileOf_line (hsb.moved (keepsUnion_shifted _)))
  exact ⟨htokens, hsections, Grammar.readAll_ok.mpr ⟨_, htokens, hsections⟩⟩

/-- The word at the end of the first file does not take the bracket that the second
begins with. -/
theorem readAll_joined_word : ∃ ta tb sa sb,
    Tokens.read "[a]\nk=w" = .ok ta ∧ ofTokens ta = .ok sa ∧
    Tokens.read "[b]" = .ok tb ∧ ofTokens tb = .ok sb ∧
    readAll ("[a]\nk=w" ++ "\n" ++ "[b]") = .ok (sa ++ sb.map (·.moved (.shifted 8))) := by
  have ha : (readAll "[a]\nk=w").toOption.isSome := by decide +kernel
  have hb : (readAll "[b]").toOption.isSome := by decide +kernel
  cases hra : readAll "[a]\nk=w" with
  | error m => simp [hra, Except.toOption] at ha
  | ok sa =>
    cases hrb : readAll "[b]" with
    | error m => simp [hrb, Except.toOption] at hb
    | ok sb =>
      obtain ⟨ta, hta, hsa⟩ := Grammar.readAll_ok.mp hra
      obtain ⟨tb, htb, hsb⟩ := Grammar.readAll_ok.mp hrb
      exact ⟨ta, tb, sa, sb, hta, hsa, htb, hsb, (readAll_joined hta hsa htb hsb).2.2⟩

end Section
end SceneDiagram
