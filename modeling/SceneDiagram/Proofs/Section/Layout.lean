import SceneDiagram.Proofs.Section.Reading

/-!
# The layout of a file

`ofTokens_alike`: trivia between two tokens means something only in front of the
bracket that turns a word into a call, and in front of the arguments behind type
arguments. Everywhere else it can come and go: two lists of tokens with one outline
are read as the same sections, or refused for the same reason. The outline is what
the readers of two lists keep in step.
-/

namespace SceneDiagram

-- ---------------------------------------------------------------------------
-- Places
-- ---------------------------------------------------------------------------

mutual

def Value.moved (f : Span → Span) : Value → Value
  | .call name typeArgs args => .call name (movedItems f typeArgs) (movedItems f args)
  | .object className properties => .object className (movedEntries f properties)
  | .array items => .array (movedItems f items)
  | .dictionary entries => .dictionary (movedEntries f entries)
  | v => v

def Value.movedItems (f : Span → Span) : List (Spanned Value) → List (Spanned Value)
  | [] => []
  | ⟨v, span⟩ :: vs => ⟨v.moved f, f span⟩ :: movedItems f vs

def Value.movedEntries (f : Span → Span) :
    List (Spanned Value × Spanned Value) → List (Spanned Value × Spanned Value)
  | [] => []
  | (⟨k, kspan⟩, ⟨v, vspan⟩) :: es =>
    (⟨k.moved f, f kspan⟩, ⟨v.moved f, f vspan⟩) :: movedEntries f es

end

def Property.moved (f : Span → Span) (p : Property) : Property :=
  ⟨⟨p.key.value, f p.key.span⟩, ⟨p.value.value.moved f, f p.value.span⟩⟩

def Section.moved (f : Span → Span) (s : Section) : Section :=
  ⟨⟨s.tag.value, f s.tag.span⟩, s.attributes.map (·.moved f), s.properties.map (·.moved f)⟩

def nowhere (_ : Span) : Span := ⟨0, 0⟩

def Section.unplaced (s : Section) : Section := s.moved nowhere

namespace Grammar

-- ---------------------------------------------------------------------------
-- Outlines
-- ---------------------------------------------------------------------------

/-- Does the second token mean something else with trivia in front than directly
behind the first? -/
def binds : Token → Token → Bool
  | .word _, .punctuation .leftParen => true
  | .word _, .punctuation .leftBracket => true
  | .punctuation .rightBracket, .punctuation .leftParen => true
  | _, _ => false

def outlineBehind (before : Option Token) (parted : Bool) : Tokens → List (Token × Bool)
  | [] => []
  | t :: ts =>
    if t.value.isTrivia then outlineBehind before true ts
    else (t.value, parted && before.any (binds · t.value)) ::
      outlineBehind (some t.value) false ts

/-- The tokens that are no trivia, each with whether trivia parts it from a token in
front that it could be bound to. -/
def outline (ts : Tokens) : List (Token × Bool) := outlineBehind none false ts

/-- Two lists have one outline behind a token, if there is one in front. -/
def Alike (before : Option Token) (s t : Tokens) : Prop :=
  outlineBehind before false s = outlineBehind before false t

/-- Two lists begin with the same token that is no trivia and go on alike, or both
are empty. -/
inductive Front : Tokens → Tokens → Prop
  | nil : Front [] []
  | cons : x.isTrivia = false → Alike (some x) s t → Front (⟨x, p⟩ :: s) (⟨x, q⟩ :: t)

theorem outlineBehind_nil (h : skipTrivia ts = []) : outlineBehind before parted ts = [] := by
  induction ts generalizing parted with
  | nil => rfl
  | cons t ts ih =>
    rw [skipTrivia] at h
    split at h
    · next ht =>
      rw [outlineBehind, if_pos ht]
      exact ih h
    · cases h

theorem outlineBehind_cons (before : Option Token) (parted : Bool)
    (h : skipTrivia ts = t :: rest) : ∃ gap,
    outlineBehind before parted ts =
      (t.value, (parted || gap) && before.any (binds · t.value)) ::
        outlineBehind (some t.value) false rest ∧
      (gap = false ↔ ts = t :: rest) := by
  induction ts generalizing parted with
  | nil => cases h
  | cons u us ih =>
    rw [skipTrivia] at h
    rw [outlineBehind]
    split at h
    · next hu =>
      obtain ⟨gap, heq, -⟩ := ih true h
      refine ⟨true, by rw [if_pos hu, heq, Bool.true_or, Bool.or_true], by simp, ?_⟩
      rintro ⟨⟩
      rw [isTrivia_of_skipTrivia h] at hu
      cases hu
    · next hu =>
      cases h
      exact ⟨false, by rw [if_neg hu, Bool.or_false], by simp⟩

variable {s t ts : Tokens}

/-- What two lists with one outline begin with. Where the first token could be bound
to the one in front, it stands directly behind it in both lists or in none. -/
theorem Alike.cases (h : Alike before s t) :
    (skipTrivia s = [] ∧ skipTrivia t = []) ∨
      ∃ x y s' t', skipTrivia s = x :: s' ∧ skipTrivia t = y :: t' ∧ x.value = y.value ∧
        Alike (some x.value) s' t' ∧
        (before.any (binds · x.value) → (s = x :: s' ↔ t = y :: t')) := by
  unfold Alike at h
  cases hs : skipTrivia s with
  | nil =>
    rw [outlineBehind_nil hs] at h
    cases ht : skipTrivia t with
    | nil => exact .inl ⟨rfl, rfl⟩
    | cons y t' =>
      obtain ⟨gap, heq, -⟩ := outlineBehind_cons before false ht
      rw [heq] at h
      cases h
  | cons x s' =>
    obtain ⟨gap, heq, hgap⟩ := outlineBehind_cons before false hs
    rw [heq] at h
    cases ht : skipTrivia t with
    | nil =>
      rw [outlineBehind_nil ht] at h
      cases h
    | cons y t' =>
      obtain ⟨gap', heq', hgap'⟩ := outlineBehind_cons before false ht
      rw [heq', List.cons.injEq, Prod.mk.injEq] at h
      obtain ⟨⟨hxy, hbound⟩, hrest⟩ := h
      refine .inr ⟨x, y, s', t', rfl, rfl, hxy, ?_, fun hb => ?_⟩
      · rw [Alike, hrest, hxy]
      · rw [← hgap, ← hgap']
        rw [← hxy, hb] at hbound
        simp_all

theorem Alike.forget (h : Alike before s t) : Alike none s t := by
  rcases h.cases with ⟨hs, ht⟩ | ⟨x, y, s', t', hs, ht, hxy, hrest, -⟩
  · rw [Alike, outlineBehind_nil hs, outlineBehind_nil ht]
  · obtain ⟨_, heq, -⟩ := outlineBehind_cons none false hs
    obtain ⟨_, heq', -⟩ := outlineBehind_cons none false ht
    rw [Alike] at hrest
    rw [Alike, heq, heq', hxy, ← hxy, hrest]
    simp

theorem Alike.front (h : Alike before s t) : Front (skipTrivia s) (skipTrivia t) := by
  rcases h.cases with ⟨hs, ht⟩ | ⟨⟨x, p⟩, ⟨y, q⟩, s', t', hs, ht, hxy, hrest, -⟩
  · rw [hs, ht]
    exact .nil
  · have hx := isTrivia_of_skipTrivia hs
    rw [hs, ht, ← show x = y from hxy]
    exact .cons hx hrest

theorem Front.alike (h : Front s t) : Alike none s t := by
  cases h with
  | nil => rfl
  | cons hx h =>
    rw [Alike] at h
    simp [Alike, outlineBehind, hx, h]

theorem Alike.symm (h : Alike before s t) : Alike before t s := Eq.symm h

theorem isTrivia_of_binds (h : binds a b) : b.isTrivia = false := by
  unfold binds at h
  split at h
  · rfl
  · rfl
  · rfl
  · cases h

theorem Alike.bound (h : Alike (some a) (⟨b, p⟩ :: s) t) (hb : binds a b) :
    ∃ q t', t = ⟨b, q⟩ :: t' ∧ Alike (some b) s t' := by
  have hskip : skipTrivia (⟨b, p⟩ :: s) = ⟨b, p⟩ :: s := skipTrivia_cons (isTrivia_of_binds hb)
  rcases h.cases with ⟨hs, -⟩ | ⟨x, ⟨y, q⟩, s', t', hs, -, hxy, hrest, hboth⟩
  · rw [hskip] at hs
    cases hs
  · rw [hskip] at hs
    cases hs
    obtain rfl : b = y := hxy
    exact ⟨q, t', (hboth hb).mp rfl, hrest⟩

-- ---------------------------------------------------------------------------
-- Marks and words
-- ---------------------------------------------------------------------------

/-- Two readers end alike: both give parts that `R` relates, or both stop in front of
what is alike. -/
abbrev RunAlike (R : α → β → Prop) : Except Fault α → Except Fault β → Prop :=
  Agree (fun f g => Alike none f.rest g.rest) R

def Parts (Same : α → β → Prop) (last : Option Token) (p : Parsed α s) (q : Parsed β t) : Prop :=
  Same p.value q.value ∧ Alike last p.rest q.rest

theorem RunAlike.begun (h : RunAlike R x y) : RunAlike R (begun s x) (begun t y) :=
  h.mapError fun _ _ h => h

theorem RunAlike.begunValue (h : RunAlike R x y) : RunAlike R (begunValue s x) (begunValue t y) :=
  h.mapError fun _ _ h => h

theorem Alike.readMark (h : Alike (some a) s t) (hb : binds a (.punctuation p)) :
    RunAlike (Parts (fun _ _ => True) (some (.punctuation p))) (readMark p s) (readMark p t) := by
  by_cases hs : ∃ span rest, s = mark p span :: rest
  · obtain ⟨span, s', rfl⟩ := hs
    obtain ⟨q, t', rfl, hrest⟩ := h.bound hb
    rw [readMark_mark, ← mark, readMark_mark]
    exact .ok ⟨trivial, hrest⟩
  · have ht : ∀ span rest, t ≠ mark p span :: rest := by
      rintro span t' rfl
      obtain ⟨q, s', rfl, -⟩ := h.symm.bound hb
      exact hs ⟨q, s', rfl⟩
    simp only [not_exists] at hs
    rw [readMark_error hs, readMark_error ht]
    exact .error h.forget

theorem Front.symm (h : Front s t) : Front t s := by
  cases h with
  | nil => exact .nil
  | cons hx h => exact .cons hx h.symm

theorem Front.of_mark (h : Front s t) (hs : s = mark p span :: s') :
    ∃ q t', t = mark p q :: t' ∧ Alike (some (.punctuation p)) s' t' := by
  subst hs
  cases h with
  | cons _ h => exact ⟨_, _, rfl, h⟩

theorem Front.ne_mark (h : Front s t) (hs : ∀ span rest, s ≠ mark p span :: rest) :
    ∀ span rest, t ≠ mark p span :: rest := by
  intro span rest ht
  obtain ⟨q, s', rfl, -⟩ := h.symm.of_mark ht
  exact hs q s' rfl

theorem Front.readMark (h : Front s t) (p : Punctuation) :
    RunAlike (Parts (fun _ _ => True) (some (.punctuation p))) (readMark p s) (readMark p t) := by
  by_cases hs : ∃ span rest, s = mark p span :: rest
  · obtain ⟨span, s', rfl⟩ := hs
    obtain ⟨q, t', rfl, hrest⟩ := h.of_mark rfl
    rw [readMark_mark, readMark_mark]
    exact .ok ⟨trivial, hrest⟩
  · simp only [not_exists] at hs
    rw [readMark_error hs, readMark_error (h.ne_mark hs)]
    exact .error h.alike

theorem Front.readWord (h : Front s t) :
    RunAlike (Parts (fun v w => v.value = w.value) none) (readWord s) (readWord t) := by
  have halike := h.alike
  cases h with
  | nil => exact .error rfl
  | @cons x s t a b hx h =>
    cases x with
    | word w => exact .ok ⟨rfl, h.forget⟩
    | _ => exact .error halike

theorem Alike.closing? (h : Alike before s t) (p : Punctuation) :
    Option.Rel (Parts (fun _ _ => True) (some (.punctuation p))) (closing? p s) (closing? p t) := by
  by_cases hs : ∃ span rest, skipTrivia s = mark p span :: rest
  · obtain ⟨span, s', hs⟩ := hs
    obtain ⟨q, t', ht, hrest⟩ := h.front.of_mark hs
    obtain ⟨_, hcs⟩ := closing?_iff.mpr hs
    obtain ⟨_, hct⟩ := closing?_iff.mpr ht
    rw [hcs, hct]
    exact .some ⟨trivial, hrest⟩
  · simp only [not_exists] at hs
    rw [closing?_eq_none.mpr hs, closing?_eq_none.mpr (h.front.ne_mark hs)]
    exact .none

inductive SameContinuation (p : Punctuation) : Continuation s → Continuation t → Prop
  | closed : Alike (some (.punctuation p)) s' t' →
      SameContinuation p (.closed a s' hs) (.closed b t' ht)
  | more : Alike none s' t' → SameContinuation p (.more s' hs) (.more t' ht)

theorem Alike.readContinuation (h : Alike before s t) (hp : Closing p) :
    RunAlike (SameContinuation p) (readContinuation p s) (readContinuation p t) := by
  by_cases hcomma : ∃ span rest, skipTrivia s = mark .comma span :: rest
  · obtain ⟨span, s', hs⟩ := hcomma
    obtain ⟨q, t', ht, hrest⟩ := h.front.of_mark hs
    obtain ⟨_, hcs⟩ := readContinuation_more (p := p) |>.mpr ⟨_, hs⟩
    obtain ⟨_, hct⟩ := readContinuation_more (p := p) |>.mpr ⟨_, ht⟩
    rw [hcs, hct]
    exact .ok (.more hrest.forget)
  by_cases hclose : ∃ span rest, skipTrivia s = mark p span :: rest
  · obtain ⟨span, s', hs⟩ := hclose
    obtain ⟨q, t', ht, hrest⟩ := h.front.of_mark hs
    obtain ⟨_, hcs⟩ := (readContinuation_closed hp.ne_comma).mpr hs
    obtain ⟨_, hct⟩ := (readContinuation_closed hp.ne_comma).mpr ht
    rw [hcs, hct]
    exact .ok (.closed hrest)
  · simp only [not_exists] at hcomma hclose
    rw [readContinuation_error hcomma hclose,
      readContinuation_error (h.front.ne_mark hcomma) (h.front.ne_mark hclose)]
    exact .error h.front.alike

-- ---------------------------------------------------------------------------
-- Values
-- ---------------------------------------------------------------------------

def SameValue (v w : Spanned Value) : Prop := v.value.moved nowhere = w.value.moved nowhere

def SameItems (xs ys : List (Spanned Value)) : Prop :=
  Value.movedItems nowhere xs = Value.movedItems nowhere ys

def SameEntries (xs ys : List (Spanned Value × Spanned Value)) : Prop :=
  Value.movedEntries nowhere xs = Value.movedEntries nowhere ys

theorem SameItems.cons (h : SameValue v w) (hs : SameItems vs ws) :
    SameItems (v :: vs) (w :: ws) := by
  rw [SameItems, Value.movedItems, Value.movedItems, h, hs, nowhere, nowhere]

theorem SameEntries.cons (hk : SameValue k l) (hv : SameValue v w) (hs : SameEntries es fs) :
    SameEntries ((k, v) :: es) ((l, w) :: fs) := by
  rw [SameEntries, Value.movedEntries, Value.movedEntries, hk, hv, hs]
  rfl

def ValueAlike (s : Tokens) : Prop :=
  ∀ t, Front s t → RunAlike (Parts SameValue none) (readValue s) (readValue t)

def ListAlike (read : Punctuation → (ts : Tokens) → Outcome (Items α) ts)
    (Same : List α → List α → Prop) (s : Tokens) : Prop :=
  ∀ p, Closing p → ∀ before t, Alike before s t →
    RunAlike (Parts (Same ·.1 ·.1) (some (.punctuation p))) (read p s) (read p t)

theorem listAlike_readItems (hv : ∀ ts : Tokens, ts.length ≤ s.length → ValueAlike ts)
    (hmore : ∀ ts : Tokens, ts.length < s.length → ListAlike readItems SameItems ts) :
    ListAlike readItems SameItems s := by
  intro p hp before t h
  have hclosing := h.closing? p
  rw [readItems, readItems]
  generalize closing? p s = cs at hclosing ⊢
  generalize closing? p t = ct at hclosing ⊢
  cases hclosing with
  | some hclosing => exact .ok ⟨rfl, hclosing.2⟩
  | none =>
    have hle := length_skipTrivia_le s
    refine (hv _ hle _ h.front).bind ?_
    rintro v w ⟨hvw, hrest⟩
    have hlt := v.shorter
    refine (hrest.readContinuation hp).bind fun k l hkl => ?_
    cases hkl with
    | closed hrest => exact .ok ⟨.cons hvw rfl, hrest⟩
    | @more s' _ hs _ hrest =>
      refine (hmore s' (by omega) p hp _ _ hrest).bind ?_
      rintro xs ys ⟨hxy, hrest⟩
      exact .ok ⟨.cons hvw hxy, hrest⟩

theorem listAlike_readEntries (hv : ∀ ts : Tokens, ts.length ≤ s.length → ValueAlike ts)
    (hmore : ∀ ts : Tokens, ts.length < s.length → ListAlike readEntries SameEntries ts) :
    ListAlike readEntries SameEntries s := by
  intro p hp before t h
  have hclosing := h.closing? p
  rw [readEntries, readEntries]
  generalize closing? p s = cs at hclosing ⊢
  generalize closing? p t = ct at hclosing ⊢
  cases hclosing with
  | some hclosing => exact .ok ⟨rfl, hclosing.2⟩
  | none =>
    have hle := length_skipTrivia_le s
    refine (hv _ hle _ h.front).bind ?_
    rintro k l ⟨hkl, hrest⟩
    have hlt := k.shorter
    have hle₁ := length_skipTrivia_le k.rest
    refine (hrest.front.readMark .colon).bind ?_
    rintro c d ⟨_, hrest⟩
    have hlt₁ := c.shorter
    have hle₂ := length_skipTrivia_le c.rest
    refine (hv _ (by omega) _ hrest.front).bind ?_
    rintro v w ⟨hvw, hrest⟩
    have hlt₂ := v.shorter
    refine (hrest.readContinuation hp).bind fun k l hgoes => ?_
    cases hgoes with
    | closed hrest => exact .ok ⟨.cons hkl hvw rfl, hrest⟩
    | @more s' _ hs _ hrest =>
      refine (hmore s' (by omega) p hp _ _ hrest).bind ?_
      rintro xs ys ⟨hxy, hrest⟩
      exact .ok ⟨.cons hkl hvw hxy, hrest⟩

-- One lemma for each shape of a value that holds others.

theorem runAlike_typedCall
    (ih : ∀ ts : Tokens, ts.length ≤ s.length → ListAlike readItems SameItems ts)
    (h : Alike before s t) :
    RunAlike (Parts SameValue none)
      (readValue (⟨.word name, a⟩ :: ⟨.punctuation .leftBracket, b⟩ :: s))
      (readValue (⟨.word name, c⟩ :: ⟨.punctuation .leftBracket, d⟩ :: t)) := by
  rw [readValue, readValue]
  refine RunAlike.begunValue ?_
  refine (ih s (Nat.le_refl _) _ (.inl rfl) _ _ h).bind ?_
  rintro ts us ⟨htypes, hrest⟩
  have hlt := ts.shorter
  refine (hrest.readMark rfl).bind ?_
  rintro p q ⟨_, hrest⟩
  have hlt₁ := p.shorter
  refine (ih _ (by omega) _ (.inr (.inl rfl)) _ _ hrest).bind ?_
  rintro xs ys ⟨hargs, hrest⟩
  exact .ok ⟨by simp only [SameValue, Value.moved]; rw [htypes, hargs], hrest.forget⟩

theorem runAlike_call (hn : name ≠ "Object") (ih : ListAlike readItems SameItems s)
    (h : Alike before s t) :
    RunAlike (Parts SameValue none)
      (readValue (⟨.word name, a⟩ :: ⟨.punctuation .leftParen, b⟩ :: s))
      (readValue (⟨.word name, c⟩ :: ⟨.punctuation .leftParen, d⟩ :: t)) := by
  rw [readValue, readValue, if_neg hn, if_neg hn]
  refine RunAlike.begunValue ?_
  refine (ih _ (.inr (.inl rfl)) _ _ h).bind ?_
  rintro xs ys ⟨hargs, hrest⟩
  exact .ok ⟨by simp only [SameValue, Value.moved]; rw [hargs], hrest.forget⟩

theorem runAlike_object (hn : name = "Object")
    (ih : ∀ ts : Tokens, ts.length < s.length → ListAlike readEntries SameEntries ts)
    (h : Alike before s t) :
    RunAlike (Parts SameValue none)
      (readValue (⟨.word name, a⟩ :: ⟨.punctuation .leftParen, b⟩ :: s))
      (readValue (⟨.word name, c⟩ :: ⟨.punctuation .leftParen, d⟩ :: t)) := by
  rw [readValue, readValue, if_pos hn, if_pos hn]
  refine RunAlike.begunValue ?_
  have hle := length_skipTrivia_le s
  refine h.front.readWord.bind ?_
  rintro v w ⟨hcls, hrest⟩
  have hlt := v.shorter
  refine (hrest.readContinuation (.inr (.inl rfl))).bind fun k l hgoes => ?_
  cases hgoes with
  | closed hrest => exact .ok ⟨by simp only [SameValue, Value.moved]; rw [hcls], hrest.forget⟩
  | @more s' _ hs _ hrest =>
    refine (ih s' (by omega) _ (.inr (.inl rfl)) _ _ hrest).bind ?_
    rintro xs ys ⟨hprops, hrest⟩
    exact .ok ⟨by simp only [SameValue, Value.moved]; rw [hcls, hprops], hrest.forget⟩

theorem runAlike_array (ih : ListAlike readItems SameItems s) (h : Alike before s t) :
    RunAlike (Parts SameValue none) (readValue (⟨.punctuation .leftBracket, a⟩ :: s))
      (readValue (⟨.punctuation .leftBracket, b⟩ :: t)) := by
  rw [readValue, readValue]
  refine RunAlike.begunValue ?_
  refine (ih _ (.inl rfl) _ _ h).bind ?_
  rintro xs ys ⟨hitems, hrest⟩
  exact .ok ⟨by simp only [SameValue, Value.moved]; rw [hitems], hrest.forget⟩

theorem runAlike_dictionary (ih : ListAlike readEntries SameEntries s) (h : Alike before s t) :
    RunAlike (Parts SameValue none) (readValue (⟨.punctuation .leftBrace, a⟩ :: s))
      (readValue (⟨.punctuation .leftBrace, b⟩ :: t)) := by
  rw [readValue, readValue]
  refine RunAlike.begunValue ?_
  refine (ih _ (.inr (.inr rfl)) _ _ h).bind ?_
  rintro xs ys ⟨hentries, hrest⟩
  exact .ok ⟨by simp only [SameValue, Value.moved]; rw [hentries], hrest.forget⟩

theorem Front.head {P : Token → Prop} (h : Front s t) (hs : ∀ x ∈ s.head?, P x.value) :
    ∀ y ∈ t.head?, P y.value := by
  cases h with
  | nil => exact hs
  | cons _ _ => simpa using hs

theorem Alike.opensCall (h : Alike (some (.word name)) s t) (hs : ∀ x ∈ s.head?, ¬ OpensCall x) :
    ∀ x ∈ t.head?, ¬ OpensCall x := by
  intro x hx hopens
  obtain ⟨t', rfl⟩ := List.head?_eq_some_iff.mp hx
  rcases hopens with hm | hm
  · obtain ⟨span, rfl⟩ := exists_of_isMark hm
    obtain ⟨q, s', rfl, -⟩ := h.symm.bound rfl
    exact hs _ rfl (.inl rfl)
  · obtain ⟨span, rfl⟩ := exists_of_isMark hm
    obtain ⟨q, s', rfl, -⟩ := h.symm.bound rfl
    exact hs _ rfl (.inr rfl)

theorem valueAlike_step
    (hi : ∀ ts : Tokens, ts.length < s.length → ListAlike readItems SameItems ts)
    (he : ∀ ts : Tokens, ts.length < s.length → ListAlike readEntries SameEntries ts) :
    ValueAlike s := by
  intro t h
  have halike := h.alike
  fun_cases readValue s with
  | case1 kind text span s =>
    cases h with
    | cons _ h =>
      rw [readValue, readValue]
      exact .ok ⟨rfl, h.forget⟩
  | case2 x span s =>
    cases h with
    | cons _ h =>
      rw [readValue, readValue]
      exact .ok ⟨rfl, h.forget⟩
  | case3 name span opening s =>
    cases h with
    | cons _ h =>
      obtain ⟨q, t', rfl, hrest⟩ := h.bound rfl
      exact runAlike_typedCall (fun ts h => hi ts (by simp only [List.length_cons]; omega)) hrest
  | case4 name span paren s =>
    cases h with
    | cons _ h =>
      obtain ⟨q, t', rfl, hrest⟩ := h.bound rfl
      by_cases hn : name = "Object"
      · exact runAlike_object hn (fun ts h => he ts (by simp only [List.length_cons]; omega)) hrest
      · exact runAlike_call hn (hi s (by simp only [List.length_cons]; omega)) hrest
  | case5 name span s hb hp =>
    cases h with
    | @cons _ _ t _ c _ h =>
      have hs : ∀ x ∈ s.head?, ¬ OpensCall x := by
        intro x hx hc
        obtain ⟨rest, rfl⟩ := List.head?_eq_some_iff.mp hx
        rcases hc with hc | hc <;> obtain ⟨p, rfl⟩ := exists_of_isMark hc
        · exact hp _ _ rfl
        · exact hb _ _ rfl
      rw [readValue_word hs, readValue_word (h.opensCall hs)]
      exact .ok ⟨rfl, h.forget⟩
  | case6 span s =>
    cases h with
    | cons _ h => exact runAlike_array (hi s (Nat.lt_succ_self _)) h
  | case7 span s =>
    cases h with
    | cons _ h => exact runAlike_dictionary (he s (Nat.lt_succ_self _)) h
  | case8 s hquoted hnumber _ _ hword hbracket hbrace =>
    have hs : ∀ x ∈ s.head?, beginsValue x.value = false := by
      rintro ⟨x, span⟩ hx
      obtain ⟨rest, rfl⟩ := List.head?_eq_some_iff.mp hx
      cases x with
      | quoted _ _ => exact (hquoted _ _ _ _ rfl).elim
      | number _ => exact (hnumber _ _ _ rfl).elim
      | word _ => exact (hword _ _ _ rfl).elim
      | punctuation p =>
        cases p with
        | leftBracket => exact (hbracket _ _ rfl).elim
        | leftBrace => exact (hbrace _ _ rfl).elim
        | _ => rfl
      | _ => rfl
    rw [readValue_error hs, readValue_error (h.head (P := (beginsValue · = false)) hs)]
    exact .error halike

theorem valuesAlike (s : Tokens) : ValueAlike s ∧
    ListAlike readItems SameItems s ∧ ListAlike readEntries SameEntries s :=
  values_and_lists (V := ValueAlike)
    (L := fun ts => ListAlike readItems SameItems ts ∧ ListAlike readEntries SameEntries ts)
    (fun _ ih => valueAlike_step (fun ts h => (ih ts h).1) fun ts h => (ih ts h).2)
    (fun _ hv ih => ⟨listAlike_readItems hv fun ts h => (ih ts h).1,
      listAlike_readEntries hv fun ts h => (ih ts h).2⟩) s

-- ---------------------------------------------------------------------------
-- Sections
-- ---------------------------------------------------------------------------

def SameProperty (p q : Property) : Prop := p.moved nowhere = q.moved nowhere

def SameProperties (ps qs : List Property) : Prop :=
  ps.map (·.moved nowhere) = qs.map (·.moved nowhere)

theorem SameProperties.cons (h : SameProperty p q) (hs : SameProperties ps qs) :
    SameProperties (p :: ps) (q :: qs) := by
  rw [SameProperties, List.map_cons, List.map_cons, h, hs]

theorem Front.readProperty (h : Front s t) :
    RunAlike (Parts SameProperty none) (readProperty s) (readProperty t) := by
  refine h.readWord.bind ?_
  rintro k l ⟨hkey, hrest⟩
  refine RunAlike.begun ?_
  refine (hrest.front.readMark .equals).bind ?_
  rintro c d ⟨_, hrest⟩
  refine ((valuesAlike _).1 _ hrest.front).bind ?_
  rintro v w ⟨hvalue, hrest⟩
  refine .ok ⟨?_, hrest⟩
  rw [SameProperty, Property.moved, Property.moved, hkey, hvalue]
  rfl

theorem Alike.readAttributes (h : Alike before s t) :
    RunAlike (Parts SameProperties none) (readAttributes s) (readAttributes t) := by
  induction hn : s.length using Nat.strongRecOn generalizing before s t with
  | ind n ih =>
    have hclosing := h.closing? .rightBracket
    rw [SceneDiagram.readAttributes, SceneDiagram.readAttributes]
    generalize SceneDiagram.closing? .rightBracket s = cs at hclosing ⊢
    generalize SceneDiagram.closing? .rightBracket t = ct at hclosing ⊢
    cases hclosing with
    | some hclosing => exact .ok ⟨rfl, hclosing.2.forget⟩
    | none =>
      have hle := length_skipTrivia_le s
      refine h.front.readProperty.bind ?_
      rintro p q ⟨hpq, hrest⟩
      have hlt := p.shorter
      refine (ih _ (by omega) hrest rfl).bind ?_
      rintro ps qs ⟨hps, hrest⟩
      exact .ok ⟨.cons hpq hps, hrest⟩

theorem Alike.readProperties (h : Alike before s t) :
    RunAlike (fun ps qs => SameProperties ps.properties qs.properties ∧ Alike none ps.rest qs.rest)
      (readProperties s) (readProperties t) := by
  induction hn : s.length using Nat.strongRecOn generalizing before s t with
  | ind n ih =>
    have hfront := h.front
    have hle := length_skipTrivia_le s
    rw [SceneDiagram.readProperties, SceneDiagram.readProperties]
    generalize length_skipTrivia_le s = hs
    generalize length_skipTrivia_le t = ht
    generalize skipTrivia s = s₁ at hfront hs hle ⊢
    generalize skipTrivia t = t₁ at hfront ht ⊢
    cases hfront with
    | nil => exact .ok ⟨rfl, h.forget⟩
    | @cons x s₁ t₁ a b hx hrest =>
      cases x with
      | word w =>
        refine (Front.cons hx hrest).readProperty.bind ?_
        rintro p q ⟨hpq, hrest⟩
        have hlt := p.shorter
        refine (ih _ (by omega) hrest rfl).bind ?_
        rintro ps qs ⟨hps, hrest⟩
        exact .ok ⟨.cons hpq hps, hrest⟩
      | _ => exact .ok ⟨rfl, h.forget⟩

theorem Alike.readSection (h : Alike before s t) :
    RunAlike (Parts (fun u v => u.unplaced = v.unplaced) none) (readSection s) (readSection t) := by
  refine RunAlike.begun ?_
  refine h.front.readWord.bind ?_
  rintro v w ⟨htag, hrest⟩
  refine hrest.readAttributes.bind ?_
  rintro ps qs ⟨hattributes, hrest⟩
  refine hrest.readProperties.bind ?_
  rintro ls ms ⟨hproperties, hrest⟩
  refine .ok ⟨?_, hrest⟩
  simp only [Section.unplaced, Section.moved]
  rw [htag, hattributes, hproperties]
  rfl

theorem Alike.readSections (h : Alike before s t) :
    RunAlike (fun ss us => ss.map (·.unplaced) = us.map (·.unplaced))
      (readSections s) (readSections t) := by
  induction hn : s.length using Nat.strongRecOn generalizing before s t with
  | ind n ih =>
    have hfront := h.front
    by_cases hs : ∃ span rest, skipTrivia s = mark .leftBracket span :: rest
    · obtain ⟨span, s', hs⟩ := hs
      obtain ⟨q, t', ht, hrest⟩ := hfront.of_mark hs
      rw [readSections_section hs, readSections_section ht]
      have hlt := lt_of_skipTrivia hs
      refine hrest.readSection.bind ?_
      rintro u v ⟨huv, hrest⟩
      have hlt₁ := u.shorter
      refine (ih _ (by omega) hrest rfl).bind fun us vs huvs => ?_
      exact .ok (by rw [List.map_cons, List.map_cons, huv, huvs])
    · simp only [not_exists] at hs
      rcases h.cases with ⟨hs₁, ht₁⟩ | ⟨_, _, _, _, hs₁, ht₁, -⟩
      · rw [readSections_nil hs₁, readSections_nil ht₁]
        exact .ok rfl
      · rw [readSections_error (by simp [hs₁]) hs,
          readSections_error (by simp [ht₁]) (hfront.ne_mark hs)]
        exact .error hfront.alike

/-- Lists of tokens with one outline are read as the same sections, but for their
places, or refused for the same reason. -/
theorem ofTokens_alike (h : outline s = outline t) :
    Agree (fun d e => d.code = e.code) (fun ss us => ss.map (·.unplaced) = us.map (·.unplaced))
      (Section.ofTokens s) (Section.ofTokens t) := by
  have halike : Alike none s t := h
  refine halike.readSections.mapError fun f g hrest => ?_
  rw [code_diagnostic, code_diagnostic]
  rcases hrest.cases with ⟨hs, ht⟩ | ⟨_, _, _, _, hs, ht, -⟩
  · rw [hs, ht]
  · rw [hs, ht]

def tightLine : Tokens :=
  [.punctuation .leftBracket, .word "node", .punctuation .rightBracket, .word "tags",
    .punctuation .equals, .word "Array", .punctuation .leftBracket, .word "Tag",
    .punctuation .rightBracket, .punctuation .leftParen, .punctuation .rightParen].map (⟨·, ⟨0, 0⟩⟩)

def looseLine : Tokens :=
  [.blank, .punctuation .leftBracket, .newline, .word "node", .comment "", .punctuation .rightBracket,
    .newline, .word "tags", .blank, .punctuation .equals, .newline, .word "Array",
    .punctuation .leftBracket, .blank, .word "Tag", .newline, .punctuation .rightBracket,
    .punctuation .leftParen, .comment "none", .newline, .punctuation .rightParen,
    .newline].map (⟨·, ⟨0, 0⟩⟩)

theorem ofTokens_alike_line : outline tightLine = outline looseLine ∧
    Agree (fun d e => d.code = e.code) (fun ss us => ss.map (·.unplaced) = us.map (·.unplaced))
      (Section.ofTokens tightLine) (Section.ofTokens looseLine) :=
  ⟨rfl, ofTokens_alike rfl⟩

end Grammar
end SceneDiagram
