import SceneDiagram.Proofs.Text.Split
import SceneDiagram.Token.Number

/-!
# Number literals

`Literal` says how numbers are written, whatever stands around them. The reader takes the
longest literal at the front of a text (`munches_signed?`), except that a text which goes on
with an `e` that no digits follow holds none. So there is no number at the front exactly if
the longest literal there runs on into a word (`read?_eq_none_iff`).
-/

namespace SceneDiagram

theorem head_of_leads {w cs : List Char} (h : w <+: cs) (hc : c ∈ w.head?) : c ∈ cs.head? := by
  obtain ⟨rest, rfl⟩ := h
  simpa using .inl hc

namespace Number

open Text

-- ---------------------------------------------------------------------------
-- The grammar
-- ---------------------------------------------------------------------------

def Digits (ds : List Char) : Prop := ∀ d ∈ ds, d.isDigit

/-- The part of a numeral in front of the exponent, with a digit on at least one side of its
point. -/
inductive Coefficient : List Char → Prop
  | whole : ds ≠ [] → Digits ds → Coefficient ds
  | point : ds ++ fs ≠ [] → Digits ds → Digits fs → Coefficient (ds ++ '.' :: fs)

inductive Exponent : List Char → Prop
  | empty : Exponent []
  | digits : c = 'e' ∨ c = 'E' → s ∈ [[], ['+'], ['-']] → ds ≠ [] → Digits ds →
      Exponent (c :: (s ++ ds))

inductive Numeral : List Char → Prop
  | mk : Coefficient u → Exponent v → Numeral (u ++ v)

inductive Unsigned : List Char → Prop
  | inf : w.map Char.toLower = ['i', 'n', 'f'] → Unsigned w
  | infinity : w.map Char.toLower = ['i', 'n', 'f', 'i', 'n', 'i', 't', 'y'] → Unsigned w
  | numeral : Numeral w → Unsigned w

inductive Literal : List Char → Prop
  | unsigned : Unsigned w → Literal w
  | signed : c = '+' ∨ c = '-' → Unsigned w → Literal (c :: w)
  | nan : w.map Char.toLower = ['n', 'a', 'n'] → Literal w

/-- `v` is the longest text of a language that `cs` begins with. -/
structure Longest (language : List Char → Prop) (cs v : List Char) : Prop where
  spelled : language v
  leads : v <+: cs
  longest : ∀ u, language u → u <+: cs → u.length ≤ v.length

/-- What a reader makes of a text: it takes the longest front that is of the language,
unless there is none, or the text goes on behind it as an exponent would. -/
inductive Munches (language : List Char → Prop) (cs : List Char) : Option Reading → Prop
  | read : Longest language cs v → v.length = n → Munches language cs (some (x, n))
  | unfinished : Longest language cs v → cs = v ++ c :: rest → c = 'e' ∨ c = 'E' →
      Munches language cs none
  | nothing : (∀ u, language u → ¬ u <+: cs) → Munches language cs none

variable {cs ds fs rest u v w word : List Char} {c d : Char} {language : List Char → Prop}

theorem Longest.unique (h : Longest language cs v) (h' : Longest language cs w) : v = w :=
  (List.prefix_of_prefix_length_le h.leads h'.leads (h'.longest v h.spelled h.leads)).eq_of_length_le
    (h.longest w h'.spelled h'.leads)

theorem Munches.mono {language' : List Char → Prop} (h : Munches language cs r)
    (hmore : ∀ u, language u → language' u) (hback : ∀ u, language' u → u <+: cs → language u) :
    Munches language' cs r := by
  have hlongest {v : List Char} (hv : Longest language cs v) : Longest language' cs v :=
    ⟨hmore v hv.spelled, hv.leads, fun u hu hlead => hv.longest u (hback u hu hlead) hlead⟩
  cases h with
  | read hv hn => exact .read (hlongest hv) hn
  | unfinished hv heq hc => exact .unfinished (hlongest hv) heq hc
  | nothing hnone => exact .nothing fun u hu hlead => hnone u (hback u hu hlead) hlead

-- ---------------------------------------------------------------------------
-- Coefficients
-- ---------------------------------------------------------------------------

def fraction : List Char → List Char × Nat
  | '.' :: ds => (ds.takeWhile Char.isDigit, 1)
  | _ => ([], 0)

def coefficientLength (cs : List Char) : Nat :=
  let whole := cs.takeWhile Char.isDigit
  let f := fraction (cs.drop whole.length)
  whole.length + f.2 + f.1.length

theorem decimal?_eq (cs : List Char) : decimal? cs =
    let whole := cs.takeWhile Char.isDigit
    let ds := (fraction (cs.drop whole.length)).1
    if whole.isEmpty ∧ ds.isEmpty then none
    else match exponent? (cs.drop (coefficientLength cs)) with
      | none => none
      | some (e, more) =>
        some (Decimal.toFloat ⟨Decimal.valueOf (whole ++ ds), e - ds.length⟩,
          coefficientLength cs + more) := rfl

def HasDigit (cs : List Char) : Prop :=
  ¬ ((cs.takeWhile Char.isDigit).isEmpty ∧
    (fraction (cs.drop (cs.takeWhile Char.isDigit).length)).1.isEmpty)

theorem coefficientLength_digits (h : Digits ds) (rest : List Char) :
    coefficientLength (ds ++ rest) = ds.length + coefficientLength rest := by
  simp [coefficientLength, List.takeWhile_append_of_pos h, Nat.add_assoc]

theorem coefficientLength_point (rest : List Char) :
    coefficientLength ('.' :: rest) = 1 + (rest.takeWhile Char.isDigit).length := by
  simp [coefficientLength, fraction]

theorem coefficientLength_exponent (h : c = 'e' ∨ c = 'E') (rest : List Char) :
    coefficientLength (c :: rest) = 0 := by
  rcases h with rfl | rfl <;> simp [coefficientLength, fraction]

namespace Coefficient

theorem length_le (h : Coefficient u) (rest : List Char) :
    u.length ≤ coefficientLength (u ++ rest) := by
  cases h with
  | whole _ hds => simp [coefficientLength_digits hds]
  | point _ hds hfs =>
    rw [List.append_assoc, coefficientLength_digits hds, List.cons_append,
      coefficientLength_point, List.takeWhile_append_of_pos hfs]
    simp
    omega

/-- A coefficient that an exponent follows cannot go on. -/
theorem length_eq (h : Coefficient u) (hc : c = 'e' ∨ c = 'E') (rest : List Char) :
    coefficientLength (u ++ c :: rest) = u.length := by
  cases h with
  | whole _ hds => simp [coefficientLength_digits hds, coefficientLength_exponent hc]
  | point _ hds hfs =>
    have hstop : (c :: rest).takeWhile Char.isDigit = [] := by rcases hc with rfl | rfl <;> rfl
    rw [List.append_assoc, coefficientLength_digits hds, List.cons_append,
      coefficientLength_point, List.takeWhile_append_of_pos hfs, hstop]
    simp
    omega

theorem hasDigit (h : Coefficient u) (rest : List Char) : HasDigit (u ++ rest) := by
  cases h with
  | whole hne hds => simp [HasDigit, List.takeWhile_append_of_pos hds, hne]
  | @point ds fs hne hds hfs =>
    have hparts : ds = [] → fs ≠ [] := by
      rintro rfl rfl
      exact hne rfl
    simp only [HasDigit, List.append_assoc, List.cons_append, List.takeWhile_append_of_pos hds]
    simpa [fraction, List.takeWhile_append_of_pos hfs] using fun h h' => absurd h' (hparts h)

end Coefficient

theorem exists_coefficient (h : HasDigit cs) :
    ∃ v rest, cs = v ++ rest ∧ Coefficient v ∧ v.length = coefficientLength cs := by
  obtain ⟨ds, rest, rfl, hds, -, hrun⟩ := exists_run Char.isDigit cs
  rw [coefficientLength_digits hds]
  rw [HasDigit, hrun, List.drop_left] at h
  by_cases hpoint : ∃ more, rest = '.' :: more
  · obtain ⟨more, rfl⟩ := hpoint
    obtain ⟨fs, rest, rfl, hfs, -, hrun⟩ := exists_run Char.isDigit more
    rw [coefficientLength_point, hrun]
    refine ⟨ds ++ '.' :: fs, rest, by simp, .point ?_ hds hfs, by simp; omega⟩
    simpa [fraction, hrun] using h
  · have hfraction : fraction rest = ([], 0) := by
      unfold fraction
      split
      · exact absurd ⟨_, rfl⟩ hpoint
      · rfl
    rw [hfraction] at h
    have hnone : rest.takeWhile Char.isDigit = [] := by
      simpa [List.takeWhile_append_of_pos hds] using hrun
    exact ⟨ds, rest, rfl, .whole (by simpa using h) hds,
      by simp [coefficientLength, hnone, hfraction]⟩

-- ---------------------------------------------------------------------------
-- Exponents
-- ---------------------------------------------------------------------------

/-- The sign of an exponent: whether it is negative, the text behind it, and its length. -/
def sign : List Char → Bool × List Char × Nat
  | '-' :: ds => (true, ds, 1)
  | '+' :: ds => (false, ds, 1)
  | ds => (false, ds, 0)

def signedDigits? (cs : List Char) : Option (Int × Nat) :=
  match (sign cs).2.1.takeWhile Char.isDigit with
  | [] => none
  | ds =>
    let n : Int := Decimal.valueOf ds
    some (if (sign cs).1 then -n else n, 1 + (sign cs).2.2 + ds.length)

theorem exponent?_cons (hc : c = 'e' ∨ c = 'E') : exponent? (c :: cs) = signedDigits? cs := by
  rcases hc with rfl | rfl <;> rfl

theorem exponent?_of_ne (h : ∀ c ∈ cs.head?, c ≠ 'e' ∧ c ≠ 'E') : exponent? cs = some (0, 0) := by
  unfold exponent?
  split
  · exact absurd rfl (h _ rfl).1
  · exact absurd rfl (h _ rfl).2
  · rfl

theorem exponent_or (cs : List Char) : (∃ c ds, cs = c :: ds ∧ (c = 'e' ∨ c = 'E')) ∨
    ∀ c ∈ cs.head?, c ≠ 'e' ∧ c ≠ 'E' := by
  cases cs with
  | nil => exact .inr fun _ h => nomatch h
  | cons c ds =>
    by_cases hc : c = 'e' ∨ c = 'E'
    · exact .inl ⟨c, ds, rfl, hc⟩
    · rw [not_or] at hc
      exact .inr fun _ h => Option.mem_some.mp h ▸ hc

theorem exists_sign (cs : List Char) : ∃ s ∈ [[], ['+'], ['-']], cs = s ++ (sign cs).2.1 ∧
    (sign cs).2.2 = s.length := by
  unfold sign
  split
  · exact ⟨['-'], by simp, rfl, rfl⟩
  · exact ⟨['+'], by simp, rfl, rfl⟩
  · exact ⟨[], by simp, rfl, rfl⟩

theorem sign_digits (hs : s ∈ [[], ['+'], ['-']]) (hne : ds ≠ []) (hds : Digits ds)
    (rest : List Char) : (sign (s ++ ds ++ rest)).2 = (ds ++ rest, s.length) := by
  obtain ⟨d, ds, rfl⟩ := List.exists_cons_of_ne_nil hne
  have hd : d.isDigit := hds d List.mem_cons_self
  simp only [List.mem_cons, List.not_mem_nil, or_false] at hs
  rcases hs with rfl | rfl | rfl
  · have : d ≠ '-' ∧ d ≠ '+' := by constructor <;> rintro rfl <;> cases hd
    simp [sign, this]
  · rfl
  · rfl

theorem signedDigits?_of_digits (hs : s ∈ [[], ['+'], ['-']]) (hne : ds ≠ []) (hds : Digits ds)
    (rest : List Char) : ∃ e n, signedDigits? (s ++ ds ++ rest) = some (e, n) ∧
      1 + s.length + ds.length ≤ n := by
  have hsign := sign_digits hs hne hds rest
  obtain ⟨d, ds, rfl⟩ := List.exists_cons_of_ne_nil hne
  rw [signedDigits?, hsign, List.takeWhile_append_of_pos hds]
  exact ⟨_, _, rfl, by simp⟩

theorem exists_of_exponent? (h : exponent? cs = some (e, n)) :
    ∃ v rest, cs = v ++ rest ∧ Exponent v ∧ v.length = n := by
  rcases exponent_or cs with ⟨c, rest, rfl, hc⟩ | hne
  · rw [exponent?_cons hc, signedDigits?] at h
    obtain ⟨s, hs, hrest, hlength⟩ := exists_sign rest
    obtain ⟨ds, behind, hdigits, hds, -, hrun⟩ := exists_run Char.isDigit (sign rest).2.1
    rw [hrun] at h
    split at h
    · cases h
    · next hsome =>
      cases h
      refine ⟨c :: (s ++ ds), behind, ?_, .digits hc hs hsome hds, ?_⟩
      · rw [hrest, hdigits]
        simp
      · rw [hlength]
        simp
        omega
  · rw [exponent?_of_ne hne] at h
    cases h
    exact ⟨[], cs, rfl, .empty, rfl⟩

theorem Exponent.length_le (h : Exponent u) (hread : exponent? (u ++ rest) = some (e, n)) :
    u.length ≤ n := by
  cases h with
  | empty => exact Nat.zero_le n
  | digits hc hs hne hds =>
    obtain ⟨e', n', hsome, hle⟩ := signedDigits?_of_digits hs hne hds rest
    rw [List.cons_append, exponent?_cons hc, hsome] at hread
    cases hread
    simp
    omega

theorem exponent?_eq_none (h : exponent? cs = none) :
    (∃ c ∈ cs.head?, c = 'e' ∨ c = 'E') ∧ ∀ u, Exponent u → u <+: cs → u = [] := by
  rcases exponent_or cs with ⟨c, rest, rfl, hc⟩ | hne
  · refine ⟨⟨c, rfl, hc⟩, ?_⟩
    rintro u hu ⟨behind, heq⟩
    cases hu with
    | empty => rfl
    | digits hc hs hne hds =>
      obtain ⟨e, n, hsome, -⟩ := signedDigits?_of_digits hs hne hds behind
      rw [← heq, List.cons_append, exponent?_cons hc, hsome] at h
      cases h
  · rw [exponent?_of_ne hne] at h
    cases h

-- ---------------------------------------------------------------------------
-- Numerals
-- ---------------------------------------------------------------------------

theorem Numeral.length_le {m : Nat} (h : Numeral w) (hw : w <+: cs)
    (hexp : ∀ u, Exponent u → u <+: cs.drop (coefficientLength cs) → u.length ≤ m) :
    w.length ≤ coefficientLength cs + m := by
  obtain ⟨rest, rfl⟩ := hw
  cases h with
  | @mk u v hu hv =>
    cases hv with
    | empty =>
      rw [List.append_nil]
      exact Nat.le_add_right_of_le (hu.length_le rest)
    | @digits c s ds hc hs hne hds =>
      have hlength : coefficientLength (u ++ c :: (s ++ ds) ++ rest) = u.length := by
        rw [List.append_assoc]
        exact hu.length_eq hc _
      rw [hlength] at hexp ⊢
      have := hexp _ (.digits hc hs hne hds) (by simp)
      rw [List.length_append]
      omega

theorem munches_decimal? (cs : List Char) : Munches Numeral cs (decimal? cs) := by
  rw [decimal?_eq]
  simp only
  split
  · next hnone =>
    refine .nothing ?_
    rintro w hw ⟨rest, rfl⟩
    cases hw with
    | @mk u v hu hv =>
      rw [List.append_assoc] at hnone
      exact hu.hasDigit (v ++ rest) hnone
  · next hdigit =>
    obtain ⟨v, rest, rfl, hv, hlength⟩ := exists_coefficient hdigit
    have hdrop : (v ++ rest).drop (coefficientLength (v ++ rest)) = rest := by
      rw [← hlength, List.drop_left]
    split
    · next hexp =>
      rw [hdrop] at hexp
      obtain ⟨⟨c, hhead, hc⟩, hnone⟩ := exponent?_eq_none hexp
      obtain ⟨more, rfl⟩ := List.head?_eq_some_iff.mp hhead
      -- No digits follow the letter, so the coefficient alone is the longest numeral.
      refine .unfinished ⟨by simpa using Numeral.mk hv .empty, by simp, fun u hu hlead => ?_⟩ rfl hc
      rw [hlength]
      refine hu.length_le (m := 0) hlead fun e he hbehind => ?_
      rw [hdrop] at hbehind
      rw [hnone e he hbehind]
      exact Nat.le_refl 0
    · next e m hexp =>
      rw [hdrop] at hexp
      obtain ⟨w, rest, rfl, hw, rfl⟩ := exists_of_exponent? hexp
      refine .read (v := v ++ w) ⟨.mk hv hw, by simp, fun u hu hlead => ?_⟩ (by simp [hlength])
      rw [List.length_append, hlength]
      refine hu.length_le hlead ?_
      rw [hdrop]
      rintro e he ⟨behind, heq⟩
      exact he.length_le (heq ▸ hexp)

theorem toLower_of_isDigit (h : c.isDigit) : c.toLower = c := by
  simp only [Char.isDigit, Bool.and_eq_true, decide_eq_true_eq] at h
  unfold Char.toLower
  split
  · next hupper => exact absurd (UInt32.le_trans hupper.1 h.2) (by decide)
  · rfl

theorem Numeral.head (h : Numeral w) : ∃ c ∈ w.head?, c.isDigit ∨ c = '.' := by
  cases h with
  | mk hu _ =>
    cases hu with
    | whole hne hds =>
      obtain ⟨d, ds, rfl⟩ := List.exists_cons_of_ne_nil hne
      exact ⟨d, rfl, .inl (hds d List.mem_cons_self)⟩
    | @point ds fs _ hds =>
      cases ds with
      | nil => exact ⟨'.', rfl, .inr rfl⟩
      | cons d ds => exact ⟨d, rfl, .inl (hds d List.mem_cons_self)⟩

-- ---------------------------------------------------------------------------
-- Words that are numbers
-- ---------------------------------------------------------------------------

theorem length_of_word (h : w.map Char.toLower = word) : w.length = word.length := by
  rw [← h, List.length_map]

theorem head_of_word (h : w.map Char.toLower = d :: word) : ∃ c ∈ w.head?, c.toLower = d := by
  obtain ⟨c, w, rfl, hd, -⟩ := List.map_eq_cons_iff.mp h
  exact ⟨c, rfl, hd⟩

theorem beginsWith_of_leads (hu : u.map Char.toLower = word) (hlead : u <+: cs) :
    beginsWith word cs := by
  obtain ⟨rest, rfl⟩ := hlead
  subst hu
  simp [beginsWith]

theorem exists_of_beginsWith (h : beginsWith word cs) :
    ∃ v, v <+: cs ∧ v.map Char.toLower = word ∧ v.length = word.length := by
  have heq : (cs.take word.length).map Char.toLower = word := beq_iff_eq.mp h
  exact ⟨_, List.take_prefix _ _, heq, length_of_word heq⟩

theorem head_eq_of_beginsWith (h : beginsWith (d :: word) cs)
    (hu : u.map Char.toLower = d' :: word') (hlead : u <+: cs) : d = d' := by
  obtain ⟨v, hv, hlower, -⟩ := exists_of_beginsWith h
  obtain ⟨c, hc, rfl⟩ := head_of_word hlower
  obtain ⟨c', hc', rfl⟩ := head_of_word hu
  cases (head_of_leads hv hc).symm.trans (head_of_leads hlead hc')
  rfl

theorem not_numeral (hword : beginsWith (d :: word) cs) (hd : ¬ (d.isDigit ∨ d = '.'))
    (hu : Numeral u) : ¬ u <+: cs := by
  intro hlead
  obtain ⟨v, hv, hlower, -⟩ := exists_of_beginsWith hword
  obtain ⟨c, hc, rfl⟩ := head_of_word hlower
  obtain ⟨c', hc', hhead⟩ := hu.head
  cases (head_of_leads hv hc).symm.trans (head_of_leads hlead hc')
  rcases hhead with hdigit | rfl
  · exact hd (.inl ((toLower_of_isDigit hdigit).symm ▸ hdigit))
  · exact hd (.inr rfl)

theorem munches_unsigned? (cs : List Char) : Munches Unsigned cs (unsigned? cs) := by
  simp only [unsigned?]
  split
  · next hword =>
    obtain ⟨v, hlead, hv, hlength⟩ := exists_of_beginsWith hword
    refine .read ⟨.infinity hv, hlead, fun u hu hlead => ?_⟩ hlength
    rw [hlength]
    cases hu with
    | inf hu => simp [length_of_word hu]
    | infinity hu => simp [length_of_word hu]
    | numeral hu => exact absurd hlead (not_numeral hword (by decide) hu)
  · next hlong =>
    split
    · next hword =>
      obtain ⟨v, hlead, hv, hlength⟩ := exists_of_beginsWith hword
      refine .read ⟨.inf hv, hlead, fun u hu hlead => ?_⟩ hlength
      rw [hlength]
      cases hu with
      | inf hu => simp [length_of_word hu]
      | infinity hu => exact absurd (beginsWith_of_leads hu hlead) hlong
      | numeral hu => exact absurd hlead (not_numeral hword (by decide) hu)
    · next hshort =>
      refine (munches_decimal? cs).mono (fun u => .numeral) fun u hu hlead => ?_
      cases hu with
      | inf hu => exact absurd (beginsWith_of_leads hu hlead) hshort
      | infinity hu => exact absurd (beginsWith_of_leads hu hlead) hlong
      | numeral hu => exact hu

-- ---------------------------------------------------------------------------
-- Signs
-- ---------------------------------------------------------------------------

theorem Unsigned.head (h : Unsigned w) : ∃ c ∈ w.head?, c ≠ '+' ∧ c ≠ '-' := by
  have hword {word : List Char} (hw : w.map Char.toLower = 'i' :: word) :
      ∃ c ∈ w.head?, c ≠ '+' ∧ c ≠ '-' := by
    obtain ⟨c, hc, hi⟩ := head_of_word hw
    refine ⟨c, hc, ?_, ?_⟩ <;>
    · rintro rfl
      cases hi
  cases h with
  | inf hw => exact hword hw
  | infinity hw => exact hword hw
  | numeral hw =>
    obtain ⟨c, hc, hhead⟩ := hw.head
    refine ⟨c, hc, ?_, ?_⟩ <;>
    · rintro rfl
      simp at hhead

theorem Literal.of_sign (h : Literal u) (hc : c = '+' ∨ c = '-') (hlead : u <+: c :: cs) :
    ∃ w, u = c :: w ∧ Unsigned w ∧ w <+: cs := by
  cases h with
  | signed _ hw =>
    obtain ⟨rfl, hw'⟩ := List.cons_prefix_cons.mp hlead
    exact ⟨_, rfl, hw, hw'⟩
  | unsigned hu =>
    obtain ⟨d, hd, hplus, hminus⟩ := hu.head
    cases head_of_leads hlead hd
    exact absurd hc (not_or.mpr ⟨hplus, hminus⟩)
  | nan hu =>
    obtain ⟨d, hd, hn⟩ := head_of_word hu
    cases head_of_leads hlead hd
    rcases hc with rfl | rfl <;> cases hn

theorem Munches.signed (h : Munches Unsigned cs r) (hc : c = '+' ∨ c = '-') (f : Float → Float) :
    Munches Literal (c :: cs) (r.map fun r => (f r.1, r.2 + 1)) := by
  have hlongest {v : List Char} (hv : Longest Unsigned cs v) :
      Longest Literal (c :: cs) (c :: v) := by
    refine ⟨.signed hc hv.spelled, List.cons_prefix_cons.mpr ⟨rfl, hv.leads⟩, fun u hu hlead => ?_⟩
    obtain ⟨w, rfl, hw, hlead⟩ := hu.of_sign hc hlead
    exact Nat.succ_le_succ (hv.longest w hw hlead)
  cases h with
  | read hv hn => exact .read (hlongest hv) (congrArg (· + 1) hn)
  | unfinished hv heq he => exact .unfinished (hlongest hv) (congrArg (c :: ·) heq) he
  | nothing hnone =>
    refine .nothing fun u hu hlead => ?_
    obtain ⟨w, -, hw, hlead⟩ := hu.of_sign hc hlead
    exact hnone w hw hlead

theorem signed?_minus (cs : List Char) :
    signed? ('-' :: cs) = (unsigned? cs).map fun r => (-r.1, r.2 + 1) := rfl

theorem signed?_plus (cs : List Char) :
    signed? ('+' :: cs) = (unsigned? cs).map fun r => (r.1, r.2 + 1) := rfl

theorem munches_signed? (cs : List Char) : Munches Literal cs (signed? cs) := by
  unfold signed?
  split
  · exact (munches_unsigned? _).signed (.inr rfl) _
  · exact (munches_unsigned? _).signed (.inl rfl) id
  · next hminus hplus =>
    have hsign {c : Char} {w : List Char} (hc : c = '+' ∨ c = '-') : ¬ c :: w <+: cs := by
      rintro ⟨rest, rfl⟩
      rcases hc with rfl | rfl
      · exact hplus _ rfl
      · exact hminus _ rfl
    split
    · next hword =>
      obtain ⟨v, hlead, hv, hlength⟩ := exists_of_beginsWith hword
      refine .read ⟨.nan hv, hlead, fun u hu hlead => ?_⟩ hlength
      rw [hlength]
      cases hu with
      | nan hu => simp [length_of_word hu]
      | signed hc => exact absurd hlead (hsign hc)
      | unsigned hu =>
        cases hu with
        | inf hu => cases head_eq_of_beginsWith hword hu hlead
        | infinity hu => cases head_eq_of_beginsWith hword hu hlead
        | numeral hu => exact absurd hlead (not_numeral hword (by decide) hu)
    · next hnan =>
      refine (munches_unsigned? cs).mono (fun u => .unsigned) fun u hu hlead => ?_
      cases hu with
      | unsigned hu => exact hu
      | nan hu => exact absurd (beginsWith_of_leads hu hlead) hnan
      | signed hc => exact absurd hlead (hsign hc)

-- ---------------------------------------------------------------------------
-- The number at the front of a text
-- ---------------------------------------------------------------------------

theorem longest_of_signed? (h : signed? cs = some (x, n)) :
    ∃ v, Longest Literal cs v ∧ v.length = n := by
  have hmunch := munches_signed? cs
  rw [h] at hmunch
  cases hmunch with
  | read hv hn => exact ⟨_, hv, hn⟩

theorem Longest.length_eq (hv : Longest Literal cs v) (h : (signed? cs).map (·.2) = some n) :
    v.length = n := by
  obtain ⟨⟨x, m⟩, hread, rfl⟩ := Option.map_eq_some_iff.mp h
  obtain ⟨w, hw, rfl⟩ := longest_of_signed? hread
  rw [hv.unique hw]

/-- A text is a literal exactly if the reader takes all of it. -/
theorem literal_iff : Literal w ↔ (signed? w).map (·.2) = some w.length := by
  constructor
  · intro hw
    have hmunch := munches_signed? w
    generalize signed? w = r at hmunch ⊢
    cases hmunch with
    | read hv hn =>
      have hall := hv.longest w hw List.prefix_rfl
      rw [Option.map_some, ← hn, Nat.le_antisymm hv.leads.length_le hall]
    | unfinished hv heq =>
      have hall := hv.longest w hw List.prefix_rfl
      rw [heq, List.length_append, List.length_cons] at hall
      omega
    | nothing hnone => exact absurd List.prefix_rfl (hnone w hw)
  · intro h
    obtain ⟨⟨x, n⟩, hread, rfl⟩ := Option.map_eq_some_iff.mp h
    obtain ⟨v, hv, hn⟩ := longest_of_signed? hread
    exact hv.leads.eq_of_length hn ▸ hv.spelled

instance (w : List Char) : Decidable (Literal w) := decidable_of_iff _ literal_iff.symm

/-- There is no number at the front of a text if the longest literal there, if there is one,
runs on into a word. -/
theorem read?_eq_none_iff :
    read? cs = none ↔ ∀ v rest, cs = v ++ rest → Longest Literal cs v → rest.head?.any joinsWord := by
  have hmunch := munches_signed? cs
  rw [read?]
  generalize signed? cs = r at hmunch ⊢
  cases hmunch with
  | @read v n x hv hn =>
    obtain ⟨rest, rfl⟩ := hv.leads
    have hdrop : (v ++ rest).drop n = rest := by rw [← hn, List.drop_left]
    simp only [Option.filter_some, hdrop, Bool.not_eq_true', ite_eq_right_iff, reduceCtorEq,
      imp_false, Bool.not_eq_false]
    constructor
    · intro hjoins w behind heq hw
      obtain rfl := hv.unique hw
      rwa [List.append_cancel_left heq] at hjoins
    · exact fun hall => hall v rest rfl hv
  | @unfinished v c rest hv heq hc =>
    have hjoins : joinsWord c := by rcases hc with rfl | rfl <;> decide +kernel
    refine iff_of_true rfl fun w behind hfront hw => ?_
    obtain rfl := hv.unique hw
    rw [heq, List.append_right_inj] at hfront
    simpa [← hfront] using hjoins
  | nothing hnone =>
    exact iff_of_true rfl fun w behind _ hw => absurd hw.leads (hnone w hw.spelled)

end Number

end SceneDiagram
