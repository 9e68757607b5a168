import SceneDiagram.Proofs.Token.Number
import SceneDiagram.Token.Lexer

/-!
# How tokens are spelled

`Spelling t w rest` says that the characters `w` make the token `t` where `rest`
follows. `Spelling.read` and `reads` say that a text begins with a token exactly if
a front of it spells one. What follows counts for little: a run of characters is
taken whole, and a number or word must have ended.
-/

namespace SceneDiagram

open Text

-- ---------------------------------------------------------------------------
-- Runs of characters
-- ---------------------------------------------------------------------------

theorem inRanges_of_apart {r s : List (Nat × Nat)} (h : inRanges r n)
    (hapart : r.all fun a => s.all fun b => decide (a.2 < b.1) || decide (b.2 < a.1)) :
    inRanges s n = false := by
  rw [inRanges, List.any_eq_true] at h
  obtain ⟨a, ha, hn⟩ := h
  simp only [Bool.and_eq_true, decide_eq_true_eq] at hn
  rw [inRanges, List.any_eq_false]
  intro b hb
  have := List.all_eq_true.mp (List.all_eq_true.mp hapart a ha) b hb
  simp only [Bool.or_eq_true, decide_eq_true_eq] at this
  simp only [Bool.and_eq_true, decide_eq_true_eq]
  omega

theorem of_isBlank (P : Char → Bool)
    (hall : (blankRanges.flatMap fun r => List.range' r.1 (r.2 + 1 - r.1)).all (P ∘ Char.ofNat))
    (h : isBlank c) : P c := by
  rw [isBlank, inRanges, List.any_eq_true] at h
  obtain ⟨r, hr, hc⟩ := h
  simp only [Bool.and_eq_true, decide_eq_true_eq] at hc
  rw [List.all_eq_true] at hall
  have hmem : c.toNat ∈ blankRanges.flatMap fun r => List.range' r.1 (r.2 + 1 - r.1) :=
    List.mem_flatMap.mpr ⟨r, hr, by rw [List.mem_range'_1]; omega⟩
  simpa using hall _ hmem

theorem isAlphanumeric_of_isBlank (h : isBlank c) : isAlphanumeric c = false := by
  have hascii := of_isBlank (!·.isAlphanum) (by decide) h
  rw [Bool.not_eq_true'] at hascii
  rw [isAlphanumeric, hascii, inRanges_of_apart h (by decide +kernel), Bool.or_false]

def opens (c : Char) : Bool := c == ';' || c == '"' || c == '&' || c == '^'

theorem isWordStart_of_isBlank (h : isBlank c) : isWordStart c = false := by
  have hline := of_isBlank (· != '_') (by decide) h
  rw [isWordStart, isAlphanumeric_of_isBlank h, Bool.false_or, beq_eq_false_iff_ne]
  exact bne_iff_ne.mp hline

theorem isWordChar_of_isBlank (h : isBlank c) : isWordChar c = false := by
  have hmarks := of_isBlank (fun c => !(c == '_' || c == '/' || c == '.' || c == '-')) (by decide) h
  simpa [isWordChar, isAlphanumeric_of_isBlank h] using hmarks

theorem only_blank (h : isBlank c) : Number.isNumberChar c = false ∧
    Punctuation.ofChar? c = none ∧ opens c = false := by
  have := of_isBlank (fun c => !Number.isNumberChar c && (Punctuation.ofChar? c).isNone && !opens c)
    (by decide) h
  simpa [and_assoc] using this

theorem opens_of_isNumberChar (h : Number.isNumberChar c) : opens c = false := by
  rw [← Bool.not_eq_true, opens]
  simp only [Bool.or_eq_true, beq_iff_eq]
  rintro (((rfl | rfl) | rfl) | rfl) <;> cases h

theorem opens_of_isWordStart (h : isWordStart c) : opens c = false := by
  have hno : isWordStart ';' = false ∧ isWordStart '"' = false ∧ isWordStart '&' = false ∧
    isWordStart '^' = false := by decide +kernel
  rw [← Bool.not_eq_true, opens]
  simp only [Bool.or_eq_true, beq_iff_eq]
  rintro (((rfl | rfl) | rfl) | rfl) <;> simp_all

theorem eq_char_of_ofChar? (h : Punctuation.ofChar? c = some p) : c = p.char := by
  unfold Punctuation.ofChar? at h
  split at h <;> cases h <;> rfl

theorem only_punctuation (p : Punctuation) : Number.isNumberChar p.char = false ∧
    isWordStart p.char = false ∧ opens p.char = false := by
  cases p <;> decide +kernel

-- ---------------------------------------------------------------------------
-- Quoted text
-- ---------------------------------------------------------------------------

namespace QuotedBody

/-- The characters between two quotes, and the text that they stand for. -/
inductive Spells : List Char → List Char → Prop
  | nil : Spells [] []
  | escaped : Spells raw text → Spells ('\\' :: c :: raw) (unescape c :: text)
  | plain : c ≠ '"' → c ≠ '\\' → Spells raw text → Spells (c :: raw) (c :: text)

/-- A body ends with the first quote that no backslash stands in front of; without one
the text ends first, or a lone backslash does. -/
inductive Reads : List Char → QuotedBody → Prop
  | closed : Spells raw text → Reads (raw ++ '"' :: rest) (.closed text (raw.length + 1))
  | unclosed : Spells raw text → rest = [] ∨ rest = ['\\'] →
      Reads (raw ++ rest) (.unclosed raw.length)

theorem Spells.read_closed (h : Spells raw text) (rest : List Char) :
    read (raw ++ '"' :: rest) = .closed text (raw.length + 1) := by
  induction h with
  | nil => simp [read]
  | escaped _ ih => simp [read, ih, cons]
  | plain hq hb _ ih => simp [read, hq, hb, ih, cons]

theorem Reads.cons (front : List Char)
    (hfront : ∀ {raw text}, Spells raw text → Spells (front ++ raw) (c :: text)) (h : Reads cs b) :
    Reads (front ++ cs) (b.cons c front.length) := by
  have hlen (raw : List Char) : raw.length + front.length = (front ++ raw).length := by
    rw [List.length_append, Nat.add_comm]
  cases h with
  | closed h =>
    rw [QuotedBody.cons, Nat.add_right_comm, hlen, ← List.append_assoc]
    exact .closed (hfront h)
  | unclosed h hrest =>
    rw [QuotedBody.cons, hlen, ← List.append_assoc]
    exact .unclosed (hfront h) hrest

theorem reads (cs : List Char) : Reads cs (read cs) := by
  fun_induction read cs with
  | case1 => exact .unclosed .nil (.inl rfl)
  | case2 => exact .unclosed .nil (.inr rfl)
  | case3 c cs ih => exact ih.cons ['\\', c] .escaped
  | case4 cs => exact .closed .nil
  | case5 c cs hlone hpair hquote ih =>
    -- A backslash has been taken by one of the first cases, whether it is the last character or not.
    have hback : c ≠ '\\' := by
      rintro rfl
      cases cs with
      | nil => exact hlone rfl rfl
      | cons d cs => exact hpair d cs rfl rfl
    exact ih.cons [c] (.plain hquote hback)

end QuotedBody

-- ---------------------------------------------------------------------------
-- Tokens
-- ---------------------------------------------------------------------------

def Quote.opening : Quote → List Char
  | .plain => ['"']
  | .name => ['&', '"']
  | .path => ['^', '"']

theorem Quote.opening_eq (kind : Quote) : kind.opening = kind.mark.toList ++ ['"'] := by
  cases kind <;> rfl

/-- How a token is written in front of `rest`. What stands behind it decides where a run of
characters ends, and what is a number is no word. -/
inductive Spelling : Token → List Char → List Char → Prop
  | comment : (∀ c ∈ line, c ≠ '\n') → (∀ c ∈ rest.head?, c = '\n') →
      Spelling (.comment (String.ofList line)) (';' :: line) rest
  | quoted : QuotedBody.Spells raw text →
      Spelling (.quoted kind (String.ofList text)) (kind.opening ++ raw ++ ['"']) rest
  | number : w ≠ [] → Number.read? (w ++ rest) = some (x, w.length) → Spelling (.number x) w rest
  | word : isWordStart c → (∀ d ∈ w, isWordChar d) → (∀ d ∈ rest.head?, isWordChar d = false) →
      Number.read? (c :: w ++ rest) = none → Spelling (.word (String.ofList (c :: w))) (c :: w) rest
  | punctuation : Spelling (.punctuation p) [p.char] rest
  | newline : Spelling .newline ['\n'] rest
  | blank : w ≠ [] → (∀ c ∈ w, isInlineBlank c) → (∀ c ∈ rest.head?, isInlineBlank c = false) →
      Spelling .blank w rest

theorem isBlank_of_number (h : Number.read? (w ++ rest) = some (x, w.length)) :
    ∀ c ∈ w, isBlank c = false := by
  obtain ⟨v, _, heq, hlen, -, hv⟩ := Number.exists_of_read? h
  obtain ⟨rfl, rfl⟩ := List.append_inj heq hlen
  intro c hc
  rw [← Bool.not_eq_true]
  intro hblank
  have hnumber := hv c hc
  rw [(only_blank hblank).1] at hnumber
  cases hnumber

theorem isBlank_of_word (hc : isWordStart c) (hw : ∀ d ∈ w, isWordChar d) :
    ∀ d ∈ c :: w, isBlank d = false := by
  intro d hd
  rw [← Bool.not_eq_true]
  intro hblank
  rcases List.mem_cons.mp hd with rfl | hd
  · rw [isWordStart_of_isBlank hblank] at hc
    cases hc
  · have hword := hw d hd
    rw [isWordChar_of_isBlank hblank] at hword
    cases hword

inductive Front.Reads : List Char → Front → Prop
  | token : Spelling t (c :: w) rest → Reads (c :: w ++ rest) (.token t w.length)
  | unterminated {kind : Quote} : QuotedBody.Spells raw text → kind.opening ++ raw = c :: w →
      rest = [] ∨ rest = ['\\'] → Reads (c :: w ++ rest) (.unterminated w.length)
  | unexpected : c ≠ '\n' → isInlineBlank c = false → Reads (c :: cs) .unexpected

namespace Front

theorem ofPlain_number (h : Number.read? (c :: cs) = some (x, n + 1)) :
    ofPlain c cs = .token (.number x) n := by
  rw [ofPlain, h]

theorem ofPlain_word (h : Number.read? (c :: cs) = none) (hc : isWordStart c) : ofPlain c cs =
    .token (.word (String.ofList (c :: cs.takeWhile isWordChar)))
      (cs.takeWhile isWordChar).length := by
  simp only [ofPlain, h, if_pos hc]

theorem ofPlain_other (h : Number.read? (c :: cs) = none) (hc : isWordStart c = false) :
    ofPlain c cs = match Punctuation.ofChar? c with
      | some mark => .token (.punctuation mark) 0
      | none =>
        if c = '\n' then .token .newline 0
        else if isInlineBlank c then .token .blank (cs.takeWhile isInlineBlank).length
        else .unexpected := by
  rw [ofPlain, h]
  exact if_neg (Bool.eq_false_iff.mp hc)

theorem read_plain (h : opens c = false) (cs : List Char) : Front.read c cs = ofPlain c cs := by
  unfold Front.read
  split
  · cases h
  · cases h
  · cases h
  · cases h
  · rfl

theorem reads_ofPlain (c : Char) (cs : List Char) : Reads (c :: cs) (ofPlain c cs) := by
  cases hn : Number.read? (c :: cs) with
  | some r =>
    obtain ⟨x, n⟩ := r
    obtain ⟨w, rest, heq, rfl, hne, -⟩ := Number.exists_of_read? hn
    obtain ⟨d, w, rfl⟩ := List.exists_cons_of_ne_nil hne
    cases heq
    rw [ofPlain_number hn]
    exact .token (.number hne hn)
  | none =>
    by_cases hc : isWordStart c
    · obtain ⟨w, rest, rfl, hw, hrest, hrun⟩ := exists_run isWordChar cs
      rw [ofPlain_word hn hc, hrun]
      exact .token (.word hc hw hrest hn)
    · rw [ofPlain_other hn (Bool.eq_false_iff.mpr hc)]
      split
      · next p hp =>
        rw [eq_char_of_ofChar? hp]
        exact .token (w := []) .punctuation
      · split
        · next h =>
          subst h
          exact .token (w := []) .newline
        · next hline =>
          split
          · next hblank =>
            obtain ⟨w, rest, rfl, hw, hrest, hrun⟩ := exists_run isInlineBlank cs
            rw [hrun]
            exact .token (.blank (by simp) (by simpa [hblank] using hw) hrest)
          · next hblank => exact .unexpected hline (Bool.eq_false_iff.mpr hblank)

theorem reads_ofQuoted (kind : Quote) (h : kind.opening = c :: w) (cs : List Char) :
    Reads (c :: w ++ cs) (ofQuoted kind w.length cs) := by
  have hread := QuotedBody.reads cs
  unfold ofQuoted
  generalize QuotedBody.read cs = b at hread ⊢
  cases hread with
  | @closed raw text rest hraw =>
    have hspell : Spelling (.quoted kind (String.ofList text)) (c :: (w ++ raw ++ ['"'])) rest := by
      have : Spelling (.quoted kind (String.ofList text)) (kind.opening ++ raw ++ ['"']) rest :=
        .quoted hraw
      rwa [h] at this
    have := Reads.token hspell
    simpa only [List.length_append, List.length_singleton, Nat.add_assoc, List.cons_append,
      List.append_assoc, List.nil_append] using this
  | @unclosed raw _ _ hraw hrest =>
    have hopening : kind.opening ++ raw = c :: (w ++ raw) := by rw [h, List.cons_append]
    have := Reads.unterminated hraw hopening hrest
    rwa [List.length_append, List.cons_append, List.append_assoc] at this

theorem reads (c : Char) (cs : List Char) : Reads (c :: cs) (Front.read c cs) := by
  unfold Front.read
  split
  · obtain ⟨line, rest, rfl, hline, hrest, hrun⟩ := exists_run (· != '\n') cs
    simp only [hrun]
    exact .token (.comment (by simpa using hline) (by simpa using hrest))
  · exact reads_ofQuoted .plain rfl _
  · exact reads_ofQuoted .name rfl _
  · exact reads_ofQuoted .path rfl _
  · exact reads_ofPlain _ _

theorem exists_of_token (h : Front.read c cs = .token t more) :
    ∃ w rest, cs = w ++ rest ∧ more = w.length ∧ Spelling t (c :: w) rest := by
  have hreads := reads c cs
  rw [h] at hreads
  generalize hu : c :: cs = u at hreads
  cases hreads with
  | token hspell =>
    cases hu
    exact ⟨_, _, rfl, rfl, hspell⟩

theorem exists_of_unterminated (h : Front.read c cs = .unterminated more) :
    ∃ w rest, cs = w ++ rest ∧ more = w.length ∧ (rest = [] ∨ rest = ['\\']) ∧
      ∃ (kind : Quote) (raw text : List Char), c :: w = kind.opening ++ raw ∧
        QuotedBody.Spells raw text := by
  have hreads := reads c cs
  rw [h] at hreads
  generalize hu : c :: cs = u at hreads
  cases hreads with
  | @unterminated raw text _ w rest kind hraw heq hrest =>
    cases hu
    exact ⟨w, rest, rfl, rfl, hrest, kind, raw, text, heq.symm, hraw⟩

theorem of_unexpected (h : Front.read c cs = .unexpected) : c ≠ '\n' ∧ isInlineBlank c = false := by
  have hreads := reads c cs
  rw [h] at hreads
  cases hreads with
  | unexpected hline hblank => exact ⟨hline, hblank⟩

end Front

theorem isNumberChar_of_read? (h : Number.read? (c :: cs) = some r) : Number.isNumberChar c := by
  cases hc : Number.isNumberChar c with
  | true => rfl
  | false =>
    rw [Number.read?_of_head hc] at h
    cases h

theorem Spelling.read (h : Spelling t (c :: w) rest) :
    Front.read c (w ++ rest) = .token t w.length := by
  generalize hu : c :: w = u at h
  cases h with
  | comment hline hrest =>
    cases hu
    have hrun := takeWhile_run (p := (· != '\n')) (by simpa using hline) (by simpa using hrest)
    simp only [Front.read, hrun]
  | @quoted raw text kind _ hraw =>
    have hclosed := hraw.read_closed rest
    cases kind with
    | plain =>
      obtain ⟨rfl, rfl⟩ := List.cons.inj (hu : c :: w = '"' :: (raw ++ ['"']))
      simp [Front.read, Front.ofQuoted, hclosed]
    | name =>
      obtain ⟨rfl, rfl⟩ := List.cons.inj (hu : c :: w = '&' :: '"' :: (raw ++ ['"']))
      simp [Front.read, Front.ofQuoted, hclosed, Nat.add_comm]
    | path =>
      obtain ⟨rfl, rfl⟩ := List.cons.inj (hu : c :: w = '^' :: '"' :: (raw ++ ['"']))
      simp [Front.read, Front.ofQuoted, hclosed, Nat.add_comm]
  | number hne hread =>
    subst hu
    replace hread : Number.read? (c :: (w ++ rest)) = some (_, w.length + 1) := hread
    rw [Front.read_plain (opens_of_isNumberChar (isNumberChar_of_read? hread)),
      Front.ofPlain_number hread]
  | word hc hw hrest hn =>
    cases hu
    replace hn : Number.read? (c :: (w ++ rest)) = none := hn
    rw [Front.read_plain (opens_of_isWordStart hc), Front.ofPlain_word hn hc,
      takeWhile_run hw hrest]
  | @punctuation p =>
    cases hu
    obtain ⟨hnumber, hword, hopens⟩ := only_punctuation p
    rw [Front.read_plain hopens, Front.ofPlain_other (Number.read?_of_head hnumber _) hword,
      Punctuation.ofChar?_char]
    rfl
  | newline =>
    cases hu
    have hword : isWordStart '\n' = false := by decide +kernel
    rw [Front.read_plain rfl, Front.ofPlain_other (Number.read?_of_head rfl _) hword]
    rfl
  | blank hne hw hrest =>
    subst hu
    have hc : isInlineBlank c := hw c List.mem_cons_self
    simp only [isInlineBlank, Bool.and_eq_true, bne_iff_ne] at hc
    obtain ⟨hnumber, hmark, hopens⟩ := only_blank hc.1
    have hrun := takeWhile_run (fun d hd => hw d (List.mem_cons_of_mem c hd)) hrest
    rw [Front.read_plain hopens, Front.ofPlain_other (Number.read?_of_head hnumber _)
      (isWordStart_of_isBlank hc.1), hmark, hrun]
    simp [hc.2, hw c List.mem_cons_self]

end SceneDiagram
