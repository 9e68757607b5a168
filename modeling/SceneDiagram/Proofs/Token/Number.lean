import SceneDiagram.Proofs.Token.Literal

/-!
# The extent of a number

`exists_of_read?`: a number takes at least one character, and none but letters,
digits, points and signs. `read?_append`: where a line ends a number has ended, so
that what stands behind does not count.
-/

namespace SceneDiagram.Number

open Text

variable {cs ds rest u w word : List Char} {c : Char}

-- ---------------------------------------------------------------------------
-- The characters of a number
-- ---------------------------------------------------------------------------

def isNumberChar (c : Char) : Bool := c.isAlphanum || c == '.' || c == '+' || c == '-'

theorem Digits.chars (h : Digits ds) : ∀ c ∈ ds, isNumberChar c := by
  intro c hc
  simp [isNumberChar, Char.isAlphanum, h c hc]

theorem Coefficient.chars (h : Coefficient u) : ∀ c ∈ u, isNumberChar c := by
  cases h with
  | whole _ hds => exact hds.chars
  | point _ hds hfs =>
    rw [List.forall_mem_append, List.forall_mem_cons]
    exact ⟨hds.chars, rfl, hfs.chars⟩

theorem Exponent.chars (h : Exponent u) : ∀ c ∈ u, isNumberChar c := by
  cases h with
  | empty => simp
  | @digits c s ds hc hs _ hds =>
    have hletter : isNumberChar c := by rcases hc with rfl | rfl <;> rfl
    have hsign : ∀ d ∈ s, isNumberChar d := by
      simp only [List.mem_cons, List.not_mem_nil, or_false] at hs
      rcases hs with rfl | rfl | rfl <;> simp [isNumberChar]
    rw [List.forall_mem_cons, List.forall_mem_append]
    exact ⟨hletter, hsign, hds.chars⟩

theorem isAlphanum_of_toLower {c : Char} (h : c.toLower.isAlphanum) : c.isAlphanum := by
  unfold Char.toLower at h
  split at h
  · next hupper =>
    have hisUpper : c.isUpper := decide_eq_true hupper
    change (c.isUpper || c.isLower || c.isDigit) = true
    rw [hisUpper]
    rfl
  · exact h

theorem chars_of_word (hword : ∀ c ∈ word, c.isAlphanum) (h : w.map Char.toLower = word) :
    ∀ c ∈ w, isNumberChar c := by
  intro c hc
  have hlower : c.toLower ∈ word := h ▸ List.mem_map_of_mem hc
  simp [isNumberChar, isAlphanum_of_toLower (hword _ hlower)]

theorem Unsigned.chars (h : Unsigned w) : ∀ c ∈ w, isNumberChar c := by
  cases h with
  | inf hw => exact chars_of_word (List.all_eq_true.mp rfl) hw
  | infinity hw => exact chars_of_word (List.all_eq_true.mp rfl) hw
  | numeral hw =>
    cases hw with
    | mk hu hv => exact List.forall_mem_append.mpr ⟨hu.chars, hv.chars⟩

theorem Literal.chars (h : Literal w) : ∀ c ∈ w, isNumberChar c := by
  cases h with
  | unsigned hw => exact hw.chars
  | signed hc hw =>
    refine List.forall_mem_cons.mpr ⟨?_, hw.chars⟩
    rcases hc with rfl | rfl <;> rfl
  | nan hw => exact chars_of_word (List.all_eq_true.mp rfl) hw

theorem Literal.ne_nil (h : Literal w) : w ≠ [] := by
  rintro rfl
  cases h with
  | unsigned hw =>
    obtain ⟨c, hc, -⟩ := hw.head
    cases hc
  | nan hw => cases hw

theorem exists_of_read? (h : read? cs = some (x, n)) :
    ∃ w rest, cs = w ++ rest ∧ n = w.length ∧ w ≠ [] ∧ ∀ c ∈ w, isNumberChar c := by
  obtain ⟨w, hw, hn⟩ := longest_of_signed? (Option.filter_eq_some_iff.mp h).1
  obtain ⟨rest, hcs⟩ := hw.leads
  exact ⟨w, rest, hcs.symm, hn.symm, hw.spelled.ne_nil, hw.spelled.chars⟩

theorem read?_of_head (hc : isNumberChar c = false) (cs : List Char) : read? (c :: cs) = none := by
  rw [Option.eq_none_iff_forall_ne_some]
  rintro ⟨x, n⟩ h
  obtain ⟨w, rest, heq, -, hne, hw⟩ := exists_of_read? h
  obtain ⟨d, w, rfl⟩ := List.exists_cons_of_ne_nil hne
  rw [List.cons_append, List.cons.injEq] at heq
  rw [heq.1, hw d List.mem_cons_self] at hc
  cases hc

-- ---------------------------------------------------------------------------
-- The end of a line
-- ---------------------------------------------------------------------------

def AtLineEnd (cs : List Char) : Prop := ∀ c ∈ cs.head?, c = '\n' ∨ c = '\r'

theorem takeWhile_append {p : Char → Bool} (hn : p '\n' = false) (hr : p '\r' = false)
    (hrest : AtLineEnd rest) : (cs ++ rest).takeWhile p = cs.takeWhile p := by
  have hstop : rest.takeWhile p = [] := by
    cases rest with
    | nil => rfl
    | cons c rest => rcases hrest c rfl with rfl | rfl <;> simp [hn, hr]
  rw [List.takeWhile_append, hstop, List.append_nil]
  split
  · next h => exact (List.takeWhile_sublist p).eq_of_length h |>.symm
  · rfl

theorem beginsWith_append (hw : ∀ c ∈ word, c.isAlphanum) (hrest : AtLineEnd rest) :
    beginsWith word (cs ++ rest) = beginsWith word cs := by
  unfold beginsWith
  by_cases hlen : word.length ≤ cs.length
  · rw [List.take_append_of_le_length hlen]
  cases rest with
  | nil => rw [List.append_nil]
  | cons c rest =>
    -- The word would have to go on over the end of the line.
    have hc : c.toLower.isAlphanum = false := by rcases hrest c rfl with rfl | rfl <;> rfl
    have hshort : (cs.take word.length).map Char.toLower ≠ word := by
      intro heq
      have := congrArg List.length heq
      simp only [List.length_map, List.length_take] at this
      omega
    have hover : ((cs ++ c :: rest).take word.length).map Char.toLower ≠ word := by
      intro heq
      have hmem : c ∈ (cs ++ c :: rest).take word.length := by
        obtain ⟨k, hk⟩ : ∃ k, word.length = cs.length + 1 + k :=
          ⟨word.length - cs.length - 1, by omega⟩
        rw [List.take_append, hk, show cs.length + 1 + k - cs.length = k + 1 by omega]
        simp
      have := hw _ (heq ▸ List.mem_map_of_mem hmem)
      rw [hc] at this
      cases this
    rw [beq_false_of_ne hshort, beq_false_of_ne hover]

theorem sign_append (hrest : AtLineEnd rest) (cs : List Char) :
    sign (cs ++ rest) = ((sign cs).1, (sign cs).2.1 ++ rest, (sign cs).2.2) := by
  cases cs with
  | nil =>
    cases rest with
    | nil => rfl
    | cons c rest => rcases hrest c rfl with rfl | rfl <;> rfl
  | cons c cs =>
    rw [List.cons_append]
    unfold sign
    split <;> simp_all

theorem exponent?_append (hrest : AtLineEnd rest) (cs : List Char) :
    exponent? (cs ++ rest) = exponent? cs := by
  rcases exponent_or cs with ⟨c, ds, rfl, hc⟩ | hne
  · rw [List.cons_append, exponent?_cons hc, exponent?_cons hc, signedDigits?, signedDigits?,
      sign_append hrest]
    simp only [takeWhile_append (p := Char.isDigit) rfl rfl hrest]
  · rw [exponent?_of_ne hne]
    refine exponent?_of_ne fun c hc => ?_
    cases cs with
    | nil => rcases hrest c hc with rfl | rfl <;> decide
    | cons d cs => exact hne c hc

theorem fraction_append (hrest : AtLineEnd rest) (cs : List Char) :
    fraction (cs ++ rest) = fraction cs := by
  cases cs with
  | nil =>
    cases rest with
    | nil => rfl
    | cons c rest => rcases hrest c rfl with rfl | rfl <;> rfl
  | cons c cs =>
    by_cases hc : c = '.'
    · subst hc
      exact congrArg (·, 1) (takeWhile_append rfl rfl hrest)
    · rw [List.cons_append]
      simp [fraction, hc]

theorem fraction_drop_append (hrest : AtLineEnd rest) (cs : List Char) :
    fraction ((cs ++ rest).drop (cs.takeWhile Char.isDigit).length) =
      fraction (cs.drop (cs.takeWhile Char.isDigit).length) := by
  rw [List.drop_append_of_le_length (List.takeWhile_prefix _).length_le, fraction_append hrest]

theorem fraction_le (cs : List Char) : (fraction cs).2 + (fraction cs).1.length ≤ cs.length := by
  unfold fraction
  split
  · next ds =>
    rw [List.length_cons, Nat.add_comm]
    exact Nat.succ_le_succ (List.takeWhile_prefix _).length_le
  · exact Nat.zero_le _

theorem coefficientLength_le (cs : List Char) : coefficientLength cs ≤ cs.length := by
  have hwhole := (List.takeWhile_prefix (l := cs) Char.isDigit).length_le
  have hfraction := fraction_le (cs.drop (cs.takeWhile Char.isDigit).length)
  rw [List.length_drop] at hfraction
  rw [coefficientLength]
  omega

theorem coefficientLength_append (hrest : AtLineEnd rest) (cs : List Char) :
    coefficientLength (cs ++ rest) = coefficientLength cs := by
  simp only [coefficientLength, takeWhile_append (p := Char.isDigit) rfl rfl hrest,
    fraction_drop_append hrest]

theorem decimal?_append (hrest : AtLineEnd rest) (cs : List Char) :
    decimal? (cs ++ rest) = decimal? cs := by
  rw [decimal?_eq, decimal?_eq]
  simp only [takeWhile_append (p := Char.isDigit) rfl rfl hrest, fraction_drop_append hrest,
    coefficientLength_append hrest, List.drop_append_of_le_length (coefficientLength_le cs),
    exponent?_append hrest]

theorem unsigned?_append (hrest : AtLineEnd rest) (cs : List Char) :
    unsigned? (cs ++ rest) = unsigned? cs := by
  simp only [unsigned?]
  rw [beginsWith_append (List.all_eq_true.mp rfl) hrest,
    beginsWith_append (List.all_eq_true.mp rfl) hrest, decimal?_append hrest]

theorem length_le_of_signed? (h : signed? cs = some (x, n)) : n ≤ cs.length := by
  obtain ⟨v, hv, rfl⟩ := longest_of_signed? h
  exact hv.leads.length_le

theorem signed?_append (hrest : AtLineEnd rest) (cs : List Char) :
    signed? (cs ++ rest) = signed? cs := by
  have unmarked : (if beginsWith ['n', 'a', 'n'] (cs ++ rest) then some (0.0 / 0.0, 3)
      else unsigned? (cs ++ rest)) =
      if beginsWith ['n', 'a', 'n'] cs then some (0.0 / 0.0, 3) else unsigned? cs := by
    rw [beginsWith_append (List.all_eq_true.mp rfl) hrest, unsigned?_append hrest]
  cases cs with
  | nil =>
    cases rest with
    | nil => rfl
    | cons c rest => rcases hrest c rfl with rfl | rfl <;> exact unmarked
  | cons c cs =>
    by_cases hminus : c = '-'
    · subst hminus
      rw [List.cons_append, signed?_minus, signed?_minus, unsigned?_append hrest]
    by_cases hplus : c = '+'
    · subst hplus
      rw [List.cons_append, signed?_plus, signed?_plus, unsigned?_append hrest]
    · rw [List.cons_append] at unmarked ⊢
      simpa [signed?, hminus, hplus] using unmarked

theorem joinsWord_of_lineEnd (h : c = '\n' ∨ c = '\r') : joinsWord c = false := by
  rcases h with rfl | rfl <;> decide +kernel

/-- What stands behind the end of a line does not make a number of what is none, and
takes none away. -/
theorem read?_append (hrest : AtLineEnd rest) (cs : List Char) :
    read? (cs ++ rest) = read? cs := by
  unfold read?
  rw [signed?_append hrest]
  cases h : signed? cs with
  | none => rfl
  | some r =>
    have hjoins : ((cs ++ rest).drop r.2).head?.any joinsWord =
        (cs.drop r.2).head?.any joinsWord := by
      rw [List.drop_append_of_le_length (length_le_of_signed? h)]
      cases cs.drop r.2 with
      | cons c cs => rfl
      | nil =>
        cases rest with
        | nil => rfl
        | cons c rest => simpa using joinsWord_of_lineEnd (hrest c rfl)
    simp only [Option.filter_some, hjoins]

end SceneDiagram.Number
