import SceneDiagram.Proofs.Basic
import SceneDiagram.Proofs.Section.Grammar

/-!
# Reading follows the grammar

`ofTokens_ok_iff_fileOf`: the sections of a list of tokens are those that the
grammar derives, and there is one way to derive them. Each lemma states one
reader as the relation it decides; lists and values agree by induction on the
number of tokens.
-/

namespace SceneDiagram.Grammar

variable {ts ts₁ ts₂ rest : Tokens}

-- ---------------------------------------------------------------------------
-- Outcomes
-- ---------------------------------------------------------------------------

@[simp] theorem begun_ok {x : Except Fault α} : begun start x = .ok a ↔ x = .ok a := by
  cases x <;> simp [begun, mapError_ok, mapError_error]

@[simp] theorem begunValue_ok {x : Except Fault α} : begunValue start x = .ok a ↔ x = .ok a := by
  cases x <;> simp [begunValue, mapError_ok, mapError_error]

theorem firstMeaningful?_eq (ts : Tokens) : firstMeaningful? ts = (skipTrivia ts).head? := by
  induction ts with
  | nil => rfl
  | cons t ts ih =>
    rw [firstMeaningful?, List.find?_cons, skipTrivia]
    cases ht : t.value.isTrivia with
    | true => exact ih
    | false => rfl

theorem code_diagnostic (file : Tokens) (f : Fault) : (f.diagnostic file).code =
    match skipTrivia f.rest with
    | [] => some .incompleteInput
    | _ :: _ => some .unexpectedToken := by
  rw [Fault.diagnostic, firstMeaningful?_eq f.rest]
  cases skipTrivia f.rest with
  | nil => rfl
  | cons t ts => rfl

/-- The part read is `v`, and `rest` is behind it. -/
def Gives (x : Outcome α ts) (v : α) (rest : Tokens) : Prop :=
  ∃ p, x = .ok p ∧ p.value = v ∧ p.rest = rest

@[simp] theorem gives_ok {p : Parsed α ts} :
    Gives (.ok p) v rest ↔ p.value = v ∧ p.rest = rest := by
  simp [Gives]

@[simp] theorem gives_error {f : Fault} : Gives (.error f : Outcome α ts) v rest ↔ False := by
  simp [Gives]

theorem gives_bind {x : Outcome α ts} {f : Parsed α ts → Outcome β ts₁} :
    Gives (x >>= f) v rest ↔ ∃ p, x = .ok p ∧ Gives (f p) v rest := by
  simp only [Gives, bind_ok]
  constructor
  · rintro ⟨q, ⟨p, hx, hf⟩, hv⟩
    exact ⟨p, hx, q, hf, hv⟩
  · rintro ⟨p, hx, q, hf, hv⟩
    exact ⟨q, ⟨p, hx, hf⟩, hv⟩

@[simp] theorem gives_begun {x : Outcome α ts} : Gives (begun start x) v rest ↔ Gives x v rest := by
  simp [Gives]

@[simp] theorem gives_begunValue {x : Outcome α ts} :
    Gives (begunValue start x) v rest ↔ Gives x v rest := by
  simp [Gives]

-- ---------------------------------------------------------------------------
-- Marks and words
-- ---------------------------------------------------------------------------

theorem readMark_mark (p : Punctuation) (span : Span) (ts : Tokens) :
    readMark p (mark p span :: ts) = .ok ⟨span, ts, Nat.lt_succ_self _⟩ := by
  simp [readMark, mark, Token.isMark]

theorem readMark_error (h : ∀ span rest, ts ≠ mark p span :: rest) :
    readMark p ts = .error (.here ts [.mark p]) := by
  unfold readMark
  split
  · next t rest =>
    split
    · next hm =>
      obtain ⟨span, rfl⟩ := exists_of_isMark hm
      exact absurd rfl (h span rest)
    · rfl
  · rfl

theorem gives_readMark : Gives (readMark p ts) span rest ↔ ts = mark p span :: rest := by
  unfold readMark
  split
  · next t ts =>
    split
    · next ht =>
      obtain ⟨s, rfl⟩ := exists_of_isMark ht
      simp [mark]
    · next ht => simp [ne_mark ht]
  · simp

theorem gives_readWord : Gives (readWord ts) w rest ↔ ts = word w :: rest := by
  obtain ⟨s, span⟩ := w
  unfold readWord
  split
  · simp [word, and_assoc]
  · next h =>
    simp only [gives_error, false_iff]
    exact h _ _ _

theorem closing?_iff :
    (∃ h, closing? p ts = some ⟨span, rest, h⟩) ↔ skipTrivia ts = mark p span :: rest := by
  unfold closing?
  split
  · next t rest' ht =>
    have hlt := lt_of_skipTrivia ht
    split
    · next hm =>
      obtain ⟨s, rfl⟩ := exists_of_isMark hm
      simp only [ht, Option.some.injEq, Parsed.mk.injEq, List.cons.injEq, mark_inj, true_and]
      constructor
      · rintro ⟨_, h⟩
        exact h
      · intro h
        exact ⟨h.2 ▸ hlt, h⟩
    · next hm => simp [ht, ne_mark hm]
  · next ht => simp [ht]

theorem closing?_eq_none :
    closing? p ts = none ↔ ∀ span rest, skipTrivia ts ≠ mark p span :: rest := by
  rw [Option.eq_none_iff_forall_ne_some]
  constructor
  · intro h span rest hs
    obtain ⟨_, hc⟩ := closing?_iff.mpr hs
    exact h _ hc
  · intro h q hq
    exact h _ _ (closing?_iff.mp ⟨q.shorter, hq⟩)

theorem readContinuation_more :
    (∃ h, readContinuation p ts = .ok (.more rest h)) ↔
      ∃ span, skipTrivia ts = mark .comma span :: rest := by
  unfold readContinuation
  split
  · next t rest' ht =>
    have hlt := lt_of_skipTrivia ht
    split
    · next hm =>
      obtain ⟨s, rfl⟩ := exists_of_isMark hm
      simp only [ht, Except.ok.injEq, Continuation.more.injEq, List.cons.injEq, mark_inj, true_and,
        exists_eq_left']
      constructor
      · rintro ⟨_, h⟩
        exact h
      · intro h
        exact ⟨h ▸ hlt, h⟩
    · next hm => split <;> simp [ht, ne_mark hm]
  · next ht => simp [ht]

theorem readContinuation_closed (hp : p ≠ .comma) :
    (∃ h, readContinuation p ts = .ok (.closed span rest h)) ↔
      skipTrivia ts = mark p span :: rest := by
  unfold readContinuation
  split
  · next t rest' ht =>
    have hlt := lt_of_skipTrivia ht
    split
    · next hm =>
      obtain ⟨s, rfl⟩ := exists_of_isMark hm
      simp [ht, hp.symm]
    · split
      · next hm =>
        obtain ⟨s, rfl⟩ := exists_of_isMark hm
        simp only [ht, Except.ok.injEq, Continuation.closed.injEq, List.cons.injEq, mark_inj,
          true_and]
        constructor
        · rintro ⟨_, h⟩
          exact h
        · intro h
          exact ⟨h.2 ▸ hlt, h⟩
      · next hm => simp [ht, ne_mark hm]
  · next ht => simp [ht]

theorem readContinuation_error (hcomma : ∀ span rest, skipTrivia ts ≠ mark .comma span :: rest)
    (hclose : ∀ span rest, skipTrivia ts ≠ mark p span :: rest) :
    readContinuation p ts = .error (.here (skipTrivia ts) [.mark p]) := by
  unfold readContinuation
  split
  · next t rest ht =>
    rw [if_neg, if_neg, ht]
    · intro hm
      obtain ⟨span, rfl⟩ := exists_of_isMark hm
      exact hclose span rest ht
    · intro hm
      obtain ⟨span, rfl⟩ := exists_of_isMark hm
      exact hcomma span rest ht
  · next ht => rw [ht]

theorem gives_continuation (hp : p ≠ .comma) {f : Continuation ts₁ → Outcome α ts} :
    Gives (readContinuation p ts₁ >>= f) v rest ↔
      (∃ span ts₂ h, skipTrivia ts₁ = mark p span :: ts₂ ∧ Gives (f (.closed span ts₂ h)) v rest) ∨
      ∃ span ts₂ h, skipTrivia ts₁ = mark .comma span :: ts₂ ∧ Gives (f (.more ts₂ h)) v rest := by
  simp only [Gives, bind_ok]
  constructor
  · rintro ⟨q, ⟨k, hk, hf⟩, hv⟩
    cases k with
    | closed span ts₂ h =>
      exact .inl ⟨span, ts₂, h, (readContinuation_closed hp).mp ⟨h, hk⟩, q, hf, hv⟩
    | more ts₂ h =>
      obtain ⟨span, hs⟩ := readContinuation_more.mp ⟨h, hk⟩
      exact .inr ⟨span, ts₂, h, hs, q, hf, hv⟩
  · rintro (⟨span, ts₂, h, hs, q, hf, hv⟩ | ⟨span, ts₂, h, hs, q, hf, hv⟩)
    · obtain ⟨_, hk⟩ := (readContinuation_closed hp).mpr hs
      exact ⟨q, ⟨_, hk, hf⟩, hv⟩
    · obtain ⟨_, hk⟩ := readContinuation_more.mpr ⟨span, hs⟩
      exact ⟨q, ⟨_, hk, hf⟩, hv⟩

-- ---------------------------------------------------------------------------
-- Values
-- ---------------------------------------------------------------------------

/-- The tokens are read as a value exactly as the grammar has it. -/
def ValueAgrees (ts : Tokens) : Prop :=
  ∀ v rest, Gives (readValue ts) v rest ↔ ValueAt ts v rest

def ListAgrees (read : Punctuation → (ts : Tokens) → Outcome (Items α) ts)
    (Item : Tokens → α → Tokens → Prop) (ts : Tokens) : Prop :=
  ∀ p, Closing p → ∀ xs close rest,
    Gives (read p ts) (xs, close) rest ↔ ListAt Item p ts xs close rest

/-- Behind an item, reading and grammar go on in the same two ways. -/
theorem listAgrees_tail {read : Punctuation → (ts : Tokens) → Outcome (Items α) ts}
    {Item : Tokens → α → Tokens → Prop} (hp : Closing p)
    (hmore : ∀ ts₂ : Tokens, ts₂.length < ts₁.length → ListAgrees read Item ts₂) :
    ((∃ span ts₂, ∃ (_ : ts₂.length < ts₁.length), skipTrivia ts₁ = mark p span :: ts₂ ∧
        ([x], span) = (xs, close) ∧ ts₂ = rest) ∨
      ∃ span ts₂, ∃ (_ : ts₂.length < ts₁.length), skipTrivia ts₁ = mark .comma span :: ts₂ ∧
        ∃ q, read p ts₂ = .ok q ∧ (x :: q.value.1, q.value.2) = (xs, close) ∧ q.rest = rest) ↔
    (xs = [x] ∧ skipTrivia ts₁ = mark p close :: rest ∨
      ∃ span ts₂ ys, xs = x :: ys ∧ skipTrivia ts₁ = mark .comma span :: ts₂ ∧
        ListAt Item p ts₂ ys close rest) := by
  constructor
  · rintro (⟨span, ts₂, -, hs, h, rfl⟩ | ⟨span, ts₂, hlt, hs, q, hq, h, rfl⟩)
    · cases h
      exact .inl ⟨rfl, hs⟩
    · cases h
      exact .inr ⟨span, ts₂, _, rfl, hs, (hmore ts₂ hlt p hp _ _ _).mp ⟨q, hq, rfl, rfl⟩⟩
  · rintro (⟨rfl, hs⟩ | ⟨span, ts₂, ys, rfl, hs, hys⟩)
    · exact .inl ⟨_, _, lt_of_skipTrivia hs, hs, rfl, rfl⟩
    · have hlt := lt_of_skipTrivia hs
      obtain ⟨q, hq, hv, rfl⟩ := (hmore ts₂ hlt p hp _ _ _).mpr hys
      exact .inr ⟨_, _, hlt, hs, q, hq, by rw [hv], rfl⟩

theorem listAgrees_readItems
    (hv : ∀ ts₁ : Tokens, ts₁.length ≤ ts.length → ValueAgrees ts₁)
    (hmore : ∀ ts₁ : Tokens, ts₁.length < ts.length → ListAgrees readItems ValueAt ts₁) :
    ListAgrees readItems ValueAt ts := by
  intro p hp xs close rest
  rw [readItems]
  split
  · next span ts₁ h hc =>
    rw [listAt_of_closing ValueAt.begins hp (closing?_iff.mp ⟨h, hc⟩)]
    simp [and_assoc, eq_comm]
  · next hc =>
    rw [listAt_of_item ValueAt.begins (closing?_eq_none.mp hc)]
    simp only [gives_bind, gives_continuation hp.ne_comma, gives_ok]
    have hle := length_skipTrivia_le ts
    have tail (q : Parsed (Spanned Value) (skipTrivia ts)) (ts₂ : Tokens)
        (h : ts₂.length < q.rest.length) : ListAgrees readItems ValueAt ts₂ := by
      have := q.shorter
      exact hmore _ (by omega)
    constructor
    · rintro ⟨q, hq, h⟩
      exact ⟨q.value, q.rest, (hv _ hle _ _).mp ⟨q, hq, rfl, rfl⟩,
        (listAgrees_tail hp (tail q)).mp h⟩
    · rintro ⟨x, ts₁, hx, h⟩
      obtain ⟨q, hq, rfl, rfl⟩ := (hv _ hle _ _).mpr hx
      exact ⟨q, hq, (listAgrees_tail hp (tail q)).mpr h⟩

theorem listAgrees_readEntries
    (hv : ∀ ts₁ : Tokens, ts₁.length ≤ ts.length → ValueAgrees ts₁)
    (hmore : ∀ ts₁ : Tokens, ts₁.length < ts.length → ListAgrees readEntries EntryAt ts₁) :
    ListAgrees readEntries EntryAt ts := by
  intro p hp xs close rest
  rw [readEntries]
  split
  · next span ts₁ h hc =>
    rw [listAt_of_closing EntryAt.begins hp (closing?_iff.mp ⟨h, hc⟩)]
    simp [and_assoc, eq_comm]
  · next hc =>
    rw [listAt_of_item EntryAt.begins (closing?_eq_none.mp hc)]
    simp only [gives_bind, gives_continuation hp.ne_comma, gives_ok]
    have hle := length_skipTrivia_le ts
    constructor
    · rintro ⟨k, hk, c, hc, v, hr, h⟩
      have hk₁ := length_skipTrivia_le k.rest
      have hc₁ := length_skipTrivia_le c.rest
      have hlt := k.shorter
      have hlt₁ := c.shorter
      have hlt₂ := v.shorter
      have hkey := (hv _ hle _ _).mp ⟨k, hk, rfl, rfl⟩
      have hcolon := gives_readMark.mp ⟨c, hc, rfl, rfl⟩
      have hvalue := (hv _ (by omega) _ _).mp ⟨v, hr, rfl, rfl⟩
      exact ⟨(k.value, v.value), v.rest, entryAt_iff.mpr ⟨_, _, _, hkey, hcolon, hvalue⟩,
        (listAgrees_tail hp fun ts₂ h₂ => hmore _ (by omega)).mp h⟩
    · rintro ⟨⟨key, value⟩, ts₁, he, h⟩
      obtain ⟨ts₂, span, ts₃, hkey, hcolon, hvalue⟩ := entryAt_iff.mp he
      obtain ⟨k, hk, rfl, rfl⟩ := (hv _ hle _ _).mpr hkey
      obtain ⟨c, hc, rfl, rfl⟩ := gives_readMark.mpr hcolon
      have hk₁ := length_skipTrivia_le k.rest
      have hc₁ := length_skipTrivia_le c.rest
      have hlt := k.shorter
      have hlt₁ := c.shorter
      obtain ⟨v, hr, rfl, rfl⟩ := (hv _ (by omega) _ _).mpr hvalue
      have hlt₂ := v.shorter
      exact ⟨k, hk, c, hc, v, hr,
        (listAgrees_tail hp fun ts₂ h₂ => hmore _ (by omega)).mpr h⟩

-- One lemma for each shape of a value that holds others.

theorem valueAgrees_typedCall
    (ih : ∀ ts₁ : Tokens, ts₁.length ≤ ts.length → ListAgrees readItems ValueAt ts₁) :
    ValueAgrees (⟨.word name, span⟩ :: ⟨.punctuation .leftBracket, opening⟩ :: ts) := by
  intro v rest
  simp only [readValue, gives_begunValue, gives_bind, gives_ok]
  constructor
  · rintro ⟨t, ht, q, hq, a, ha, rfl, rfl⟩
    have hlt := t.shorter
    have hlt₁ := q.shorter
    have htypes := (ih ts (Nat.le_refl _) _ (.inl rfl) _ _ _).mp ⟨t, ht, rfl, rfl⟩
    have hparen := gives_readMark.mp ⟨q, hq, rfl, rfl⟩
    have hargs := (ih q.rest (by omega) _ (.inr (.inl rfl)) _ _ _).mp ⟨a, ha, rfl, rfl⟩
    exact .typedCall (w := ⟨name, span⟩) (hparen ▸ htypes) hargs
  · intro h
    cases h with
    | word hw => simp [OpensCall, Token.isMark] at hw
    | typedCall htypes hargs =>
      obtain ⟨⟨_, _, hlt⟩, ht, rfl, rfl⟩ := (ih ts (Nat.le_refl _) _ (.inl rfl) _ _ _).mpr htypes
      obtain ⟨⟨_, _, hlt₁⟩, hq, rfl, rfl⟩ := gives_readMark.mpr (rfl : _ = _)
      have hle : _ ≤ ts.length := Nat.le_trans (Nat.le_of_lt hlt₁) (Nat.le_of_lt hlt)
      obtain ⟨⟨_, _, _⟩, ha, rfl, rfl⟩ := (ih _ hle _ (.inr (.inl rfl)) _ _ _).mpr hargs
      exact ⟨_, ht, _, hq, _, ha, rfl, rfl⟩

theorem valueAgrees_call (hn : name ≠ "Object") (ih : ListAgrees readItems ValueAt ts) :
    ValueAgrees (⟨.word name, span⟩ :: ⟨.punctuation .leftParen, paren⟩ :: ts) := by
  intro v rest
  simp only [readValue, if_neg hn, gives_begunValue, gives_bind, gives_ok]
  constructor
  · rintro ⟨a, ha, rfl, rfl⟩
    exact .call (w := ⟨name, span⟩) hn ((ih _ (.inr (.inl rfl)) _ _ _).mp ⟨a, ha, rfl, rfl⟩)
  · intro h
    cases h with
    | word hw => simp [OpensCall, Token.isMark] at hw
    | call _ hargs =>
      obtain ⟨⟨_, _, _⟩, ha, rfl, rfl⟩ := (ih _ (.inr (.inl rfl)) _ _ _).mpr hargs
      exact ⟨_, ha, rfl, rfl⟩
    | bareObject h _ _ | object h _ _ _ => exact absurd h hn

theorem valueAgrees_object (hn : name = "Object")
    (ih : ∀ ts₁ : Tokens, ts₁.length < ts.length → ListAgrees readEntries EntryAt ts₁) :
    ValueAgrees (⟨.word name, span⟩ :: ⟨.punctuation .leftParen, paren⟩ :: ts) := by
  intro v rest
  have hne : Punctuation.rightParen ≠ .comma := by decide
  simp only [readValue, if_pos hn, gives_begunValue, gives_bind, gives_continuation hne, gives_ok]
  constructor
  · rintro ⟨c, hc, ⟨close, ts₁, h, hs, rfl, rfl⟩ | ⟨comma, ts₁, h, hs, q, hq, rfl, rfl⟩⟩
    · have hcls := gives_readWord.mp ⟨c, hc, rfl, rfl⟩
      exact .bareObject (w := ⟨name, span⟩) hn (trivia_word.mpr hcls) (trivia_mark.mpr hs)
    · have hcls := gives_readWord.mp ⟨c, hc, rfl, rfl⟩
      have hlt := c.shorter
      have hle := length_skipTrivia_le ts
      have hprops := (ih ts₁ (by omega) _ (.inr (.inl rfl)) _ _ _).mp ⟨q, hq, rfl, rfl⟩
      exact .object (w := ⟨name, span⟩) hn (trivia_word.mpr hcls) (trivia_mark.mpr hs) hprops
  · intro h
    cases h with
    | word hw => simp [OpensCall, Token.isMark] at hw
    | call h _ => exact absurd hn h
    | bareObject _ hcls hs =>
      obtain ⟨⟨_, _, _⟩, hc, rfl, rfl⟩ := gives_readWord.mpr (trivia_word.mp hcls)
      have hs := trivia_mark.mp hs
      exact ⟨_, hc, .inl ⟨_, _, lt_of_skipTrivia hs, hs, rfl, rfl⟩⟩
    | object _ hcls hs hprops =>
      obtain ⟨⟨_, _, hlt⟩, hc, rfl, rfl⟩ := gives_readWord.mpr (trivia_word.mp hcls)
      have hs := trivia_mark.mp hs
      have hlt₁ := lt_of_skipTrivia hs
      have hle := length_skipTrivia_le ts
      have hlt₂ := Nat.lt_of_lt_of_le (Nat.lt_trans hlt₁ hlt) hle
      obtain ⟨⟨_, _, _⟩, hq, rfl, rfl⟩ := (ih _ hlt₂ _ (.inr (.inl rfl)) _ _ _).mpr hprops
      exact ⟨_, hc, .inr ⟨_, _, hlt₁, hs, _, hq, rfl, rfl⟩⟩

theorem valueAgrees_array (ih : ListAgrees readItems ValueAt ts) :
    ValueAgrees (⟨.punctuation .leftBracket, span⟩ :: ts) := by
  intro v rest
  simp only [readValue, gives_begunValue, gives_bind, gives_ok]
  constructor
  · rintro ⟨a, ha, rfl, rfl⟩
    exact .array ((ih _ (.inl rfl) _ _ _).mp ⟨a, ha, rfl, rfl⟩)
  · intro h
    cases h with
    | array h =>
      obtain ⟨⟨_, _, _⟩, ha, rfl, rfl⟩ := (ih _ (.inl rfl) _ _ _).mpr h
      exact ⟨_, ha, rfl, rfl⟩

theorem valueAgrees_dictionary (ih : ListAgrees readEntries EntryAt ts) :
    ValueAgrees (⟨.punctuation .leftBrace, span⟩ :: ts) := by
  intro v rest
  simp only [readValue, gives_begunValue, gives_bind, gives_ok]
  constructor
  · rintro ⟨a, ha, rfl, rfl⟩
    exact .dictionary ((ih _ (.inr (.inr rfl)) _ _ _).mp ⟨a, ha, rfl, rfl⟩)
  · intro h
    cases h with
    | dictionary h =>
      obtain ⟨⟨_, _, _⟩, ha, rfl, rfl⟩ := (ih _ (.inr (.inr rfl)) _ _ _).mpr h
      exact ⟨_, ha, rfl, rfl⟩

theorem readValue_word (hn : ∀ t ∈ ts.head?, ¬ OpensCall t) :
    readValue (⟨.word name, span⟩ :: ts) = .ok ⟨⟨.ofWord name, span⟩, ts, Nat.lt_succ_self _⟩ := by
  rw [readValue]
  · rintro p ts₁ rfl
    exact hn _ rfl (.inr rfl)
  · rintro p ts₁ rfl
    exact hn _ rfl (.inl rfl)

theorem valueAgrees_word (hn : ∀ t ∈ ts.head?, ¬ OpensCall t) :
    ValueAgrees (⟨.word name, span⟩ :: ts) := by
  intro v rest
  rw [readValue_word hn, gives_ok]
  constructor
  · rintro ⟨rfl, rfl⟩
    exact .word (w := ⟨name, span⟩) hn
  · intro h
    cases h with
    | word _ => exact ⟨rfl, rfl⟩
    | call _ _ | bareObject _ _ _ | object _ _ _ _ => exact absurd (.inl rfl) (hn _ rfl)
    | typedCall _ _ => exact absurd (.inr rfl) (hn _ rfl)

def beginsValue : Token → Bool
  | .quoted _ _ => true
  | .number _ => true
  | .word _ => true
  | .punctuation .leftBracket => true
  | .punctuation .leftBrace => true
  | _ => false

theorem readValue_error (h : ∀ t ∈ ts.head?, beginsValue t.value = false) :
    readValue ts = .error (.here ts [.mark .leftBrace, .value]) := by
  rw [readValue]
  all_goals
    intros
    subst_vars
    exact Bool.noConfusion (h _ rfl)

theorem valueAgrees_step
    (hi : ∀ ts₁ : Tokens, ts₁.length < ts.length → ListAgrees readItems ValueAt ts₁)
    (he : ∀ ts₁ : Tokens, ts₁.length < ts.length → ListAgrees readEntries EntryAt ts₁) :
    ValueAgrees ts := by
  fun_cases readValue ts with
  | case1 kind s span ts =>
    intro v rest
    rw [readValue, gives_ok]
    constructor
    · rintro ⟨rfl, rfl⟩
      exact .quoted
    · intro h
      cases h
      exact ⟨rfl, rfl⟩
  | case2 x span ts =>
    intro v rest
    rw [readValue, gives_ok]
    constructor
    · rintro ⟨rfl, rfl⟩
      exact .number
    · intro h
      cases h
      exact ⟨rfl, rfl⟩
  | case3 name span opening ts =>
    exact valueAgrees_typedCall fun ts₁ h => hi ts₁ (by simp only [List.length_cons]; omega)
  | case4 name span paren ts =>
    by_cases hn : name = "Object"
    · exact valueAgrees_object hn fun ts₁ h => he ts₁ (by simp only [List.length_cons]; omega)
    · exact valueAgrees_call hn (hi ts (by simp only [List.length_cons]; omega))
  | case5 s span ts hb hp =>
    refine valueAgrees_word fun t ht hc => ?_
    obtain ⟨rest, rfl⟩ := List.head?_eq_some_iff.mp ht
    rcases hc with hc | hc <;> obtain ⟨p, rfl⟩ := exists_of_isMark hc
    · exact hp _ _ rfl
    · exact hb _ _ rfl
  | case6 span ts => exact valueAgrees_array (hi ts (Nat.lt_succ_self _))
  | case7 span ts => exact valueAgrees_dictionary (he ts (Nat.lt_succ_self _))
  | case8 ts hquoted hnumber _ _ hword hbracket hbrace =>
    have hread : readValue ts = .error (.here ts [.mark .leftBrace, .value]) := by
      rw [readValue] <;> assumption
    intro v rest
    rw [hread, gives_error, false_iff]
    intro h
    cases h with
    | quoted => exact hquoted _ _ _ _ rfl
    | number => exact hnumber _ _ _ rfl
    | array _ => exact hbracket _ _ rfl
    | dictionary _ => exact hbrace _ _ rfl
    | _ => exact hword _ _ _ rfl

/-- Induction over values and lists: a value holds shorter lists, a list holds values
that are no longer and goes on with a shorter list. -/
theorem values_and_lists {V L : Tokens → Prop}
    (value : ∀ ts, (∀ ts₁ : Tokens, ts₁.length < ts.length → L ts₁) → V ts)
    (list : ∀ ts, (∀ ts₁ : Tokens, ts₁.length ≤ ts.length → V ts₁) →
      (∀ ts₁ : Tokens, ts₁.length < ts.length → L ts₁) → L ts)
    (ts : Tokens) : V ts ∧ L ts := by
  have lists (ts : Tokens) : L ts := by
    induction hn : ts.length using Nat.strongRecOn generalizing ts with
    | ind n ih =>
      subst hn
      have shorter (ts₁ : Tokens) (h : ts₁.length < ts.length) : L ts₁ := ih _ h ts₁ rfl
      exact list ts (fun ts₁ h => value ts₁ fun ts₂ h₂ => shorter ts₂ (by omega)) shorter
  exact ⟨value ts fun ts₁ _ => lists ts₁, lists ts⟩

theorem agrees (ts : Tokens) : ValueAgrees ts ∧
    ListAgrees readItems ValueAt ts ∧ ListAgrees readEntries EntryAt ts :=
  values_and_lists (V := ValueAgrees)
    (L := fun ts => ListAgrees readItems ValueAt ts ∧ ListAgrees readEntries EntryAt ts)
    (fun _ ih => valueAgrees_step (fun ts₁ h => (ih ts₁ h).1) fun ts₁ h => (ih ts₁ h).2)
    (fun _ hv ih => ⟨listAgrees_readItems hv fun ts₁ h => (ih ts₁ h).1,
      listAgrees_readEntries hv fun ts₁ h => (ih ts₁ h).2⟩) ts

theorem gives_readValue : Gives (readValue ts) v rest ↔ ValueAt ts v rest := (agrees ts).1 v rest

-- ---------------------------------------------------------------------------
-- Properties
-- ---------------------------------------------------------------------------

theorem gives_readProperty : Gives (readProperty ts) p rest ↔ PropertyAt ts p rest := by
  simp only [readProperty, gives_bind, gives_begun, gives_ok, propertyAt_iff]
  constructor
  · rintro ⟨k, hk, e, he, v, hv, rfl, rfl⟩
    exact ⟨k.rest, e.value, e.rest, gives_readWord.mp ⟨k, hk, rfl, rfl⟩,
      gives_readMark.mp ⟨e, he, rfl, rfl⟩, gives_readValue.mp ⟨v, hv, rfl, rfl⟩⟩
  · rintro ⟨ts₁, span, ts₂, hkey, hequals, hvalue⟩
    obtain ⟨⟨_, _, _⟩, hk, rfl, rfl⟩ := gives_readWord.mpr hkey
    obtain ⟨⟨_, _, _⟩, he, rfl, rfl⟩ := gives_readMark.mpr hequals
    obtain ⟨v, hv, hpv, rfl⟩ := gives_readValue.mpr hvalue
    exact ⟨_, hk, _, he, v, hv, by rw [hpv], rfl⟩

theorem gives_readAttributes : Gives (readAttributes ts) ps rest ↔
    ∃ ts₁ span, PropertiesAt ts ps ts₁ ∧ skipTrivia ts₁ = mark .rightBracket span :: rest := by
  fun_induction readAttributes ts generalizing ps rest with
  | case1 ts span ts₁ h hc =>
    have hs := closing?_iff.mp ⟨h, hc⟩
    rw [gives_ok]
    constructor
    · rintro ⟨rfl, rfl⟩
      exact ⟨ts, span, .nil, hs⟩
    · rintro ⟨ts₂, span₁, hps, hs₁⟩
      cases hps with
      | nil =>
        rw [hs] at hs₁
        simp_all
      | cons ht hp _ =>
        obtain ⟨ts₃, rfl⟩ := hp.eq_word
        rw [trivia_word, hs] at ht
        simp [mark, word] at ht
  | case2 ts hc _ ih =>
    simp only [gives_bind, gives_ok]
    constructor
    · rintro ⟨p, hp, q, hq, rfl, rfl⟩
      obtain ⟨ts₁, span, hps, hs⟩ := (ih _ p.shorter).mp ⟨q, hq, rfl, rfl⟩
      exact ⟨ts₁, span, .cons (trivia_skipTrivia ts) (gives_readProperty.mp ⟨p, hp, rfl, rfl⟩) hps, hs⟩
    · rintro ⟨ts₁, span, hps, hs⟩
      cases hps with
      | nil => exact absurd hs (closing?_eq_none.mp hc _ _)
      | cons ht hp hps =>
        obtain ⟨ts₂, rfl⟩ := hp.eq_word
        rw [← trivia_word.mp ht] at hp
        obtain ⟨⟨_, _, hlt⟩, hr, rfl, rfl⟩ := gives_readProperty.mpr hp
        obtain ⟨⟨_, _, _⟩, hq, rfl, rfl⟩ := (ih _ hlt).mpr ⟨ts₁, span, hps, hs⟩
        exact ⟨_, hr, _, hq, rfl, rfl⟩

def GivesLines (x : Except Fault (Lines ts)) (ps : List Property) (rest : Tokens) : Prop :=
  ∃ l, x = .ok l ∧ l.properties = ps ∧ l.rest = rest

theorem givesLines_of_word (hs : skipTrivia ts = word w :: ts₁) :
    GivesLines (readProperties ts) ps rest ↔ ∃ p, readProperty (word w :: ts₁) = .ok p ∧
      ∃ l, readProperties p.rest = .ok l ∧ p.value :: l.properties = ps ∧ l.rest = rest := by
  obtain ⟨s, span⟩ := w
  rw [readProperties, GivesLines]
  split
  · next heq _ =>
    rw [hs] at heq
    cases heq
    simp only [bind_ok]
    constructor
    · rintro ⟨_, ⟨p, hp, l, hl, h⟩, rfl, rfl⟩
      cases h
      exact ⟨p, hp, l, hl, rfl, rfl⟩
    · rintro ⟨p, hp, l, hl, rfl, rfl⟩
      exact ⟨_, ⟨p, hp, l, hl, rfl⟩, rfl, rfl⟩
  · next hle hne => exact (hne s span ts₁ (hs ▸ hle) hs (proof_irrel_heq _ _)).elim

theorem givesLines_of_endsLines (hs : EndsLines ts) :
    GivesLines (readProperties ts) ps rest ↔ ps = [] ∧ rest = ts := by
  rw [readProperties, GivesLines]
  split
  · next s span _ _ heq _ => exact absurd heq (hs ⟨s, span⟩ _)
  · simp [eq_comm]

theorem givesLines_readProperties : GivesLines (readProperties ts) ps rest ↔
    PropertiesAt ts ps rest ∧ EndsLines rest := by
  induction ts using readProperties.induct generalizing ps rest with
  | case1 ts s span ts₁ _ hs ih =>
    replace hs : skipTrivia ts = word ⟨s, span⟩ :: ts₁ := hs
    rw [givesLines_of_word hs]
    constructor
    · rintro ⟨p, hp, l, hl, rfl, rfl⟩
      obtain ⟨hps, he⟩ := (ih p.rest p.shorter).mp ⟨l, hl, rfl, rfl⟩
      exact ⟨.cons (trivia_word.mpr hs) (gives_readProperty.mp ⟨p, hp, rfl, rfl⟩) hps, he⟩
    · rintro ⟨hps, he⟩
      cases hps with
      | nil => exact absurd hs (he _ _)
      | cons ht hp hps =>
        obtain ⟨ts₂, rfl⟩ := hp.eq_word
        rw [(trivia_word.mp ht).symm.trans hs] at hp
        obtain ⟨⟨_, _, hlt⟩, hr, rfl, rfl⟩ := gives_readProperty.mpr hp
        obtain ⟨l, hl, rfl, rfl⟩ := (ih _ hlt).mpr ⟨hps, he⟩
        exact ⟨_, hr, l, hl, rfl, rfl⟩
  | case2 ts hle hne =>
    have hs : EndsLines ts := fun w rest h => hne _ _ _ (h ▸ hle) h (proof_irrel_heq _ _)
    rw [givesLines_of_endsLines hs]
    constructor
    · rintro ⟨rfl, rfl⟩
      exact ⟨.nil, hs⟩
    · rintro ⟨hps, -⟩
      cases hps with
      | nil => exact ⟨rfl, rfl⟩
      | cons ht hp _ =>
        obtain ⟨ts₁, rfl⟩ := hp.eq_word
        exact absurd (trivia_word.mp ht) (hs _ _)

-- ---------------------------------------------------------------------------
-- Sections
-- ---------------------------------------------------------------------------

theorem gives_readSection : Gives (readSection ts) s rest ↔
    SectionAt (mark .leftBracket span :: ts) s rest ∧ EndsLines rest := by
  simp only [readSection, gives_begun, gives_bind]
  constructor
  · rintro ⟨t, ht, a, ha, q, hq, rfl, rfl⟩
    obtain ⟨l, hl, h⟩ := bind_ok.mp hq
    cases h
    have htag := gives_readWord.mp ⟨t, ht, rfl, rfl⟩
    obtain ⟨ts₁, _, hattributes, hs⟩ := gives_readAttributes.mp ⟨a, ha, rfl, rfl⟩
    obtain ⟨hlines, he⟩ := givesLines_readProperties.mp ⟨l, hl, rfl, rfl⟩
    exact ⟨.mk (trivia_word.mpr htag) hattributes (trivia_mark.mpr hs) hlines, he⟩
  · rintro ⟨⟨htag, hattributes, hs, hlines⟩, he⟩
    obtain ⟨⟨_, _, _⟩, ht, rfl, rfl⟩ := gives_readWord.mpr (trivia_word.mp htag)
    obtain ⟨⟨_, _, _⟩, ha, rfl, rfl⟩ :=
      gives_readAttributes.mpr ⟨_, _, hattributes, trivia_mark.mp hs⟩
    obtain ⟨l, hl, rfl, rfl⟩ := givesLines_readProperties.mpr ⟨hlines, he⟩
    exact ⟨_, ht, _, ha, _, bind_ok.mpr ⟨l, hl, rfl⟩, rfl, rfl⟩

theorem readSections_nil (hs : skipTrivia ts = []) : readSections ts = .ok [] := by
  rw [readSections]
  split
  · rfl
  · next h =>
    rw [hs] at h
    cases h
  · next h _ => exact absurd hs h

theorem readSections_section (hs : skipTrivia ts = mark .leftBracket span :: ts₁) :
    readSections ts = readSection ts₁ >>= fun p => readSections p.rest >>= fun sections =>
      .ok (p.value :: sections) := by
  rw [readSections]
  split
  · next h =>
    rw [hs] at h
    cases h
  · next h =>
    rw [hs] at h
    cases h
    rfl
  · next h => exact absurd hs (h _ _)

theorem readSections_error (hs : skipTrivia ts ≠ [])
    (hmark : ∀ span ts₁, skipTrivia ts ≠ mark .leftBracket span :: ts₁) :
    readSections ts = .error (.here (skipTrivia ts) []) := by
  rw [readSections]
  split
  · next h => exact absurd h hs
  · next h => exact absurd h (hmark _ _)
  · rfl

theorem readSections_ok : readSections ts = .ok sections ↔ FileOf ts sections := by
  fun_induction readSections ts generalizing sections with
  | case1 ts hs =>
    rw [fileOf_iff]
    constructor
    · rintro ⟨⟩
      exact .inl ⟨hs, rfl⟩
    · rintro (⟨-, rfl⟩ | ⟨_, _, _, _, _, hs₁, -⟩)
      · rfl
      · simp [hs] at hs₁
  | case2 ts span ts₁ hs _ ih =>
    rw [fileOf_iff]
    simp only [bind_ok]
    constructor
    · rintro ⟨s, hr, ss, hrs, h⟩
      cases h
      obtain ⟨hsec, -⟩ := gives_readSection.mp ⟨s, hr, rfl, rfl⟩
      exact .inr ⟨span, ts₁, _, _, _, hs, rfl, hsec, (ih s.rest s.shorter).mp hrs⟩
    · rintro (⟨hs₁, -⟩ | ⟨span₁, ts₂, s, ts₃, ss, hs₁, rfl, hsec, hss⟩)
      · simp [hs] at hs₁
      · rw [hs] at hs₁
        cases hs₁
        obtain ⟨⟨_, _, hlt⟩, hr, rfl, rfl⟩ := gives_readSection.mpr ⟨hsec, hss.endsLines⟩
        exact ⟨_, hr, _, (ih _ hlt).mpr hss, rfl⟩
  | case3 ts hne hnm =>
    rw [fileOf_iff]
    simp only [reduceCtorEq, false_iff]
    rintro (⟨hs, -⟩ | ⟨span, ts₁, _, _, _, hs, -⟩)
    · exact hne hs
    · exact hnm span ts₁ hs

theorem ofTokens_ok : Section.ofTokens ts = .ok sections ↔ readSections ts = .ok sections := by
  cases h : readSections ts <;> simp [Section.ofTokens, mapError_ok, mapError_error, h]

theorem readAll_ok : Section.readAll source = .ok sections ↔
    ∃ ts, Tokens.read source = .ok ts ∧ Section.ofTokens ts = .ok sections := by
  rw [Section.readAll, bind_ok]
  refine exists_congr fun ts => and_congr_right fun _ => ?_
  cases Section.ofTokens ts <;> simp [mapError_ok, mapError_error]

/-- Reading accepts exactly the files of the grammar and gives the tree that it
derives; no list of tokens is a file in two ways. -/
theorem ofTokens_ok_iff_fileOf (ts : Tokens) :
    (∀ sections, Section.ofTokens ts = .ok sections ↔ FileOf ts sections) ∧
      ∀ sections sections₁, FileOf ts sections → FileOf ts sections₁ → sections = sections₁ := by
  have accepts (sections) : Section.ofTokens ts = .ok sections ↔ FileOf ts sections :=
    ofTokens_ok.trans readSections_ok
  refine ⟨accepts, fun sections sections₁ h h₁ => ?_⟩
  rw [← accepts] at h h₁
  exact Except.ok.inj (h.symm.trans h₁)

end SceneDiagram.Grammar
