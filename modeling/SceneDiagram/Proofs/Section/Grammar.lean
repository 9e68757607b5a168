import SceneDiagram.Section.Parser

/-!
# The grammar of sections

What a list of tokens may consist of, as relations: `ValueAt ts v rest` says
that `ts` begins with a value `v` and that `rest` is behind it. The relations
leave open how much trivia a gap takes and where the lines below a header end.
`FileOf` takes a list to its end.
-/

namespace SceneDiagram.Grammar

-- ---------------------------------------------------------------------------
-- Relations
-- ---------------------------------------------------------------------------

inductive Trivia : Tokens → Tokens → Prop
  | none : Trivia ts ts
  | skip : t.value.isTrivia → Trivia ts rest → Trivia (t :: ts) rest

/-- The token that would turn a word in front of it into a call. -/
def OpensCall (t : Spanned Token) : Prop :=
  t.value.isMark .leftParen ∨ t.value.isMark .leftBracket

def mark (p : Punctuation) (span : Span) : Spanned Token := ⟨.punctuation p, span⟩

def word (w : Spanned String) : Spanned Token := ⟨.word w.value, w.span⟩

/-- Items up to a closing mark, with commas between them. A comma may stand
behind the last item. -/
inductive ListAt (Item : Tokens → α → Tokens → Prop) :
    Punctuation → Tokens → List α → Span → Tokens → Prop
  | nil : Trivia ts (mark c close :: rest) → ListAt Item c ts [] close rest
  | last : Trivia ts ts₁ → Item ts₁ x ts₂ → Trivia ts₂ (mark c close :: rest) →
      ListAt Item c ts [x] close rest
  | cons : Trivia ts ts₁ → Item ts₁ x ts₂ → Trivia ts₂ (mark .comma comma :: ts₃) →
      ListAt Item c ts₃ xs close rest → ListAt Item c ts (x :: xs) close rest

mutual

inductive ValueAt : Tokens → Spanned Value → Tokens → Prop
  | quoted : ValueAt (⟨.quoted kind s, span⟩ :: rest) ⟨.quoted kind s, span⟩ rest
  | number : ValueAt (⟨.number x, span⟩ :: rest) ⟨.number x, span⟩ rest
  | word : (∀ t ∈ rest.head?, ¬ OpensCall t) →
      ValueAt (word w :: rest) ⟨.ofWord w.value, w.span⟩ rest
  | call : w.value ≠ "Object" → ListAt ValueAt .rightParen ts args close rest →
      ValueAt (word w :: mark .leftParen paren :: ts)
        ⟨.call w.value [] args, w.span.union close⟩ rest
  | typedCall : ListAt ValueAt .rightBracket ts typeArgs bracket (mark .leftParen paren :: ts₁) →
      ListAt ValueAt .rightParen ts₁ args close rest →
      ValueAt (word w :: mark .leftBracket opening :: ts)
        ⟨.call w.value typeArgs args, w.span.union close⟩ rest
  | bareObject : w.value = "Object" → Trivia ts (word cls :: ts₁) →
      Trivia ts₁ (mark .rightParen close :: rest) →
      ValueAt (word w :: mark .leftParen paren :: ts)
        ⟨.object cls.value [], w.span.union close⟩ rest
  | object : w.value = "Object" → Trivia ts (word cls :: ts₁) →
      Trivia ts₁ (mark .comma comma :: ts₂) →
      ListAt EntryAt .rightParen ts₂ properties close rest →
      ValueAt (word w :: mark .leftParen paren :: ts)
        ⟨.object cls.value properties, w.span.union close⟩ rest
  | array : ListAt ValueAt .rightBracket ts items close rest →
      ValueAt (mark .leftBracket span :: ts) ⟨.array items, span.union close⟩ rest
  | dictionary : ListAt EntryAt .rightBrace ts entries close rest →
      ValueAt (mark .leftBrace span :: ts) ⟨.dictionary entries, span.union close⟩ rest

inductive EntryAt : Tokens → Spanned Value × Spanned Value → Tokens → Prop
  | mk : ValueAt ts key ts₁ → Trivia ts₁ (mark .colon colon :: ts₂) → Trivia ts₂ ts₃ →
      ValueAt ts₃ value rest → EntryAt ts (key, value) rest

end

inductive PropertyAt : Tokens → Property → Tokens → Prop
  | mk : Trivia ts (mark .equals equals :: ts₁) → Trivia ts₁ ts₂ → ValueAt ts₂ v rest →
      PropertyAt (word key :: ts) ⟨key, v⟩ rest

inductive PropertiesAt : Tokens → List Property → Tokens → Prop
  | nil : PropertiesAt ts [] ts
  | cons : Trivia ts ts₁ → PropertyAt ts₁ p ts₂ → PropertiesAt ts₂ ps rest →
      PropertiesAt ts (p :: ps) rest

inductive SectionAt : Tokens → Section → Tokens → Prop
  | mk : Trivia ts (word tag :: ts₁) → PropertiesAt ts₁ attributes ts₂ →
      Trivia ts₂ (mark .rightBracket closing :: ts₃) → PropertiesAt ts₃ properties rest →
      SectionAt (mark .leftBracket opening :: ts) ⟨tag, attributes, properties⟩ rest

inductive SectionsAt : Tokens → List Section → Tokens → Prop
  | nil : SectionsAt ts [] ts
  | cons : SectionAt ts s ts₁ → Trivia ts₁ ts₂ → SectionsAt ts₂ ss rest →
      SectionsAt ts (s :: ss) rest

def FileOf (ts : Tokens) (sections : List Section) : Prop :=
  ∃ ts₁, Trivia ts ts₁ ∧ SectionsAt ts₁ sections []

-- ---------------------------------------------------------------------------
-- Trivia and marks
-- ---------------------------------------------------------------------------

variable {ts ts₁ ts₂ rest : Tokens}

theorem trivia_skipTrivia (ts : Tokens) : Trivia ts (skipTrivia ts) := by
  induction ts with
  | nil => exact .none
  | cons t ts ih =>
    unfold skipTrivia
    split
    · next ht => exact .skip ht ih
    · exact .none

theorem skipTrivia_cons {t : Spanned Token} (ht : t.value.isTrivia = false) :
    skipTrivia (t :: ts) = t :: ts := by
  simp [skipTrivia, ht]

theorem isTrivia_of_skipTrivia (h : skipTrivia ts = t :: rest) : t.value.isTrivia = false := by
  induction ts with
  | nil => cases h
  | cons u us ih =>
    rw [skipTrivia] at h
    split at h
    · exact ih h
    · next hu =>
      cases h
      exact Bool.eq_false_iff.mpr hu

theorem Trivia.skipTrivia_eq (h : Trivia ts ts₁) : skipTrivia ts = skipTrivia ts₁ := by
  induction h with
  | none => rfl
  | skip ht _ ih => simpa [skipTrivia, ht] using ih

/-- In front of a token that is no trivia, a gap takes all trivia there is. -/
theorem trivia_iff {t : Spanned Token} (ht : t.value.isTrivia = false) :
    Trivia ts (t :: rest) ↔ skipTrivia ts = t :: rest := by
  constructor
  · intro h
    rw [h.skipTrivia_eq, skipTrivia_cons ht]
  · intro h
    exact h ▸ trivia_skipTrivia ts

@[simp] theorem trivia_mark : Trivia ts (mark p span :: rest) ↔ skipTrivia ts = mark p span :: rest :=
  trivia_iff rfl

@[simp] theorem trivia_word : Trivia ts (word w :: rest) ↔ skipTrivia ts = word w :: rest :=
  trivia_iff rfl

@[simp] theorem mark_inj : mark p span = mark q span₁ ↔ p = q ∧ span = span₁ := by
  simp [mark]

@[simp] theorem isMark_mark : (mark p span).value.isMark q = (p == q) := rfl

theorem exists_of_isMark {t : Spanned Token} (h : t.value.isMark p) : ∃ span, t = mark p span := by
  obtain ⟨t, span⟩ := t
  cases t <;> simp [Token.isMark] at h
  exact ⟨span, h ▸ rfl⟩

theorem ne_mark {t : Spanned Token} (h : ¬ t.value.isMark p) (span : Span) : t ≠ mark p span := by
  rintro rfl
  simp at h

-- ---------------------------------------------------------------------------
-- Lists and entries
-- ---------------------------------------------------------------------------

def Closing (p : Punctuation) : Prop := p = .rightBracket ∨ p = .rightParen ∨ p = .rightBrace

theorem Closing.ne_comma (h : Closing p) : p ≠ .comma := by
  rcases h with rfl | rfl | rfl <;> decide

def Begins (ts : Tokens) : Prop :=
  ∃ t rest, ts = t :: rest ∧ t.value.isTrivia = false ∧ ∀ p, Closing p → t.value.isMark p = false

theorem ValueAt.begins (h : ValueAt ts v rest) : Begins ts := by
  have closing {p q} (hq : Closing q) (hp : ¬ Closing p) : (p == q) = false := by
    simp only [beq_eq_false_iff_ne]
    rintro rfl
    exact hp hq
  cases h
  case array => exact ⟨_, _, rfl, rfl, fun p hp => closing hp (by simp [Closing])⟩
  case dictionary => exact ⟨_, _, rfl, rfl, fun p hp => closing hp (by simp [Closing])⟩
  all_goals exact ⟨_, _, rfl, rfl, fun _ _ => rfl⟩

theorem EntryAt.begins (h : EntryAt ts e rest) : Begins ts := by
  obtain ⟨hk, -, -, -⟩ := h
  exact hk.begins

theorem Begins.skipTrivia_eq (h : Begins ts) : skipTrivia ts = ts := by
  obtain ⟨t, rest, rfl, ht, -⟩ := h
  exact skipTrivia_cons ht

theorem Begins.trivia_iff (h : Begins ts₁) : Trivia ts ts₁ ↔ skipTrivia ts = ts₁ := by
  obtain ⟨t, rest, rfl, ht, -⟩ := h
  exact Grammar.trivia_iff ht

theorem Begins.ne_mark (h : Begins ts) (hp : Closing p) : ts ≠ mark p span :: rest := by
  rintro rfl
  obtain ⟨t, rest, ht, -, hm⟩ := h
  simp only [List.cons.injEq] at ht
  have := hm p hp
  simp [← ht.1] at this

section
variable {Item : Tokens → α → Tokens → Prop}

theorem listAt_of_closing (hi : ∀ {ts x rest}, Item ts x rest → Begins ts) (hp : Closing p)
    (hs : skipTrivia ts = mark p span :: ts₁) :
    ListAt Item p ts xs close rest ↔ xs = [] ∧ close = span ∧ rest = ts₁ := by
  constructor
  · intro h
    cases h with
    | nil h =>
      rw [trivia_mark, hs] at h
      simp_all
    | last ht hx _ | cons ht hx _ _ =>
      rw [(hi hx).trivia_iff, hs] at ht
      exact absurd ht.symm ((hi hx).ne_mark hp)
  · rintro ⟨rfl, rfl, rfl⟩
    exact .nil (trivia_mark.mpr hs)

theorem listAt_of_item (hi : ∀ {ts x rest}, Item ts x rest → Begins ts)
    (hs : ∀ span ts₁, skipTrivia ts ≠ mark p span :: ts₁) :
    ListAt Item p ts xs close rest ↔ ∃ x ts₁, Item (skipTrivia ts) x ts₁ ∧
      (xs = [x] ∧ skipTrivia ts₁ = mark p close :: rest ∨
        ∃ span ts₂ ys, xs = x :: ys ∧ skipTrivia ts₁ = mark .comma span :: ts₂ ∧
          ListAt Item p ts₂ ys close rest) := by
  constructor
  · intro h
    cases h with
    | nil h => exact absurd (trivia_mark.mp h) (hs _ _)
    | last ht hx hc =>
      rw [(hi hx).trivia_iff] at ht
      exact ⟨_, _, ht ▸ hx, .inl ⟨rfl, trivia_mark.mp hc⟩⟩
    | cons ht hx hc hxs =>
      rw [(hi hx).trivia_iff] at ht
      exact ⟨_, _, ht ▸ hx, .inr ⟨_, _, _, rfl, trivia_mark.mp hc, hxs⟩⟩
  · rintro ⟨x, ts₁, hx, ⟨rfl, hc⟩ | ⟨span, ts₂, ys, rfl, hc, hys⟩⟩
    · exact .last (trivia_skipTrivia ts) hx (trivia_mark.mpr hc)
    · exact .cons (trivia_skipTrivia ts) hx (trivia_mark.mpr hc) hys

end

theorem entryAt_iff : EntryAt ts (key, value) rest ↔
    ∃ ts₁ span ts₂, ValueAt ts key ts₁ ∧ skipTrivia ts₁ = mark .colon span :: ts₂ ∧
      ValueAt (skipTrivia ts₂) value rest := by
  constructor
  · rintro ⟨hk, hc, ht, hv⟩
    rw [hv.begins.trivia_iff] at ht
    exact ⟨_, _, _, hk, trivia_mark.mp hc, ht ▸ hv⟩
  · rintro ⟨ts₁, span, ts₂, hk, hc, hv⟩
    exact ⟨hk, trivia_mark.mpr hc, trivia_skipTrivia ts₂, hv⟩

-- ---------------------------------------------------------------------------
-- Properties and sections
-- ---------------------------------------------------------------------------

theorem propertyAt_iff : PropertyAt ts p rest ↔
    ∃ ts₁ span ts₂, ts = word p.key :: ts₁ ∧ skipTrivia ts₁ = mark .equals span :: ts₂ ∧
      ValueAt (skipTrivia ts₂) p.value rest := by
  constructor
  · rintro ⟨he, ht, hv⟩
    rw [hv.begins.trivia_iff] at ht
    exact ⟨_, _, _, rfl, trivia_mark.mp he, ht ▸ hv⟩
  · rintro ⟨ts₁, span, ts₂, rfl, he, hv⟩
    exact .mk (trivia_mark.mpr he) (trivia_skipTrivia ts₂) hv

theorem PropertyAt.eq_word (h : PropertyAt ts p rest) : ∃ ts₁, ts = word p.key :: ts₁ := by
  obtain ⟨_, _, _⟩ := h
  exact ⟨_, rfl⟩

def EndsLines (ts : Tokens) : Prop := ∀ w rest, skipTrivia ts ≠ word w :: rest

theorem SectionAt.eq_mark (h : SectionAt ts s rest) : ∃ span ts₁, ts = mark .leftBracket span :: ts₁ := by
  obtain ⟨_, _, _, _⟩ := h
  exact ⟨_, _, rfl⟩

theorem fileOf_iff : FileOf ts sections ↔ (skipTrivia ts = [] ∧ sections = []) ∨
    ∃ span ts₁ s ts₂ ss, skipTrivia ts = mark .leftBracket span :: ts₁ ∧ sections = s :: ss ∧
      SectionAt (mark .leftBracket span :: ts₁) s ts₂ ∧ FileOf ts₂ ss := by
  constructor
  · rintro ⟨ts₁, ht, hs⟩
    cases hs with
    | nil => exact .inl ⟨ht.skipTrivia_eq, rfl⟩
    | cons hs ht₁ hss =>
      obtain ⟨span, ts₂, rfl⟩ := hs.eq_mark
      exact .inr ⟨_, _, _, _, _, trivia_mark.mp ht, rfl, hs, _, ht₁, hss⟩
  · rintro (⟨hs, rfl⟩ | ⟨span, ts₁, s, ts₂, ss, hs, rfl, hsec, ts₃, ht, hss⟩)
    · exact ⟨[], hs ▸ trivia_skipTrivia ts, .nil⟩
    · exact ⟨_, trivia_mark.mpr hs, .cons hsec ht hss⟩

theorem FileOf.endsLines (h : FileOf ts sections) : EndsLines ts := by
  intro w rest hs
  rcases fileOf_iff.mp h with ⟨h, -⟩ | ⟨_, _, _, _, _, h, -⟩
  · simp [hs] at h
  · simp [hs, word, mark] at h

end SceneDiagram.Grammar
