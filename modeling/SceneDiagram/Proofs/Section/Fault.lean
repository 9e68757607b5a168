import SceneDiagram.Proofs.Section.Stopping

/-!
# Where reading stops

`ofTokens_error_located`: a file of tokens is refused at the first token with which
no file can go on, and as incomplete if there is no such token. Each lemma takes one
reader, says what can stand where it begins, and shows that it stops where that is
left; lists and values stop there by induction on the number of tokens.
-/

namespace SceneDiagram.Grammar

variable {ts us rest stop : Tokens} {p : Punctuation} {K L : Tokens → Prop}

-- ---------------------------------------------------------------------------
-- Failing
-- ---------------------------------------------------------------------------

/-- Reading fails with the tokens `stop` left. -/
def FailsAt (x : Except Fault α) (stop : Tokens) : Prop := ∃ f, x = .error f ∧ f.rest = stop

@[simp] theorem failsAt_ok : FailsAt (.ok a : Except Fault α) stop ↔ False := by
  simp [FailsAt]

@[simp] theorem failsAt_error : FailsAt (.error f : Except Fault α) stop ↔ f.rest = stop := by
  simp [FailsAt]

theorem failsAt_bind {x : Except Fault α} {f : α → Except Fault β} :
    FailsAt (x >>= f) stop ↔ FailsAt x stop ∨ ∃ a, x = .ok a ∧ FailsAt (f a) stop := by
  cases x <;> simp [bind, Except.bind]

@[simp] theorem failsAt_bind_ok {x : Except Fault α} {f : α → β} :
    FailsAt (x >>= fun a => .ok (f a)) stop ↔ FailsAt x stop := by
  simp [failsAt_bind]

@[simp] theorem failsAt_begun {x : Except Fault α} :
    FailsAt (begun start x) stop ↔ FailsAt x stop := by
  cases x <;> simp [begun, mapError_ok, mapError_error, Fault.begun]

@[simp] theorem failsAt_begunValue {x : Except Fault α} :
    FailsAt (begunValue start x) stop ↔ FailsAt x stop := by
  cases x <;> simp [begunValue, mapError_ok, mapError_error, Fault.begun, Fault.inValue]

theorem FailsAt.not_gives {x : Outcome α ts} (h : FailsAt x stop) : ¬ Gives x v rest := by
  obtain ⟨f, rfl, -⟩ := h
  rw [gives_error]
  exact id

theorem failsAt_readWord (h : FailsAt (readWord ts) stop) :
    stop = ts ∧ ∀ w rest, ts ≠ word w :: rest := by
  unfold readWord at h
  split at h
  · rw [failsAt_ok] at h
    exact h.elim
  · next hw => exact ⟨(failsAt_error.mp h).symm, fun w rest => hw _ _ _⟩

theorem failsAt_readMark (h : FailsAt (readMark p ts) stop) :
    stop = ts ∧ ∀ span rest, ts ≠ mark p span :: rest := by
  by_cases hs : ∃ span rest, ts = mark p span :: rest
  · obtain ⟨span, rest, rfl⟩ := hs
    rw [readMark_mark, failsAt_ok] at h
    exact h.elim
  · simp only [not_exists] at hs
    rw [readMark_error hs, failsAt_error] at h
    exact ⟨h.symm, hs⟩

theorem failsAt_readContinuation (h : FailsAt (readContinuation p ts) stop) :
    stop = skipTrivia ts ∧ (∀ span rest, skipTrivia ts ≠ mark .comma span :: rest) ∧
      ∀ span rest, skipTrivia ts ≠ mark p span :: rest := by
  by_cases hcomma : ∃ span rest, skipTrivia ts = mark .comma span :: rest
  · obtain ⟨span, rest, hs⟩ := hcomma
    obtain ⟨_, hk⟩ := (readContinuation_more (p := p)).mpr ⟨span, hs⟩
    rw [hk, failsAt_ok] at h
    exact h.elim
  · by_cases hclose : ∃ span rest, skipTrivia ts = mark p span :: rest
    · obtain ⟨span, rest, hs⟩ := hclose
      have hp : p ≠ .comma := by
        rintro rfl
        exact hcomma ⟨_, _, hs⟩
      obtain ⟨_, hk⟩ := (readContinuation_closed hp).mpr hs
      rw [hk, failsAt_ok] at h
      exact h.elim
    · simp only [not_exists] at hcomma hclose
      rw [readContinuation_error hcomma hclose, failsAt_error] at h
      exact ⟨h.symm, hcomma, hclose⟩

-- ---------------------------------------------------------------------------
-- What can stand in a list
-- ---------------------------------------------------------------------------

theorem isList_eq {Item : Tokens → α → Tokens → Prop}
    (hi : ∀ {ts x rest}, Item ts x rest → Begins ts) :
    IsList Item p = Skipped fun ts => Next p Anything ts ∨ Then Item (Goes Item p) ts := by
  funext ts
  refine propext ⟨?_, ?_⟩
  · rintro ⟨⟨xs, close⟩, rest, h, -⟩
    cases h with
    | nil h => exact .inl ⟨_, _, trivia_mark.mp h, trivial⟩
    | last ht hx hclose =>
      rw [(hi hx).trivia_iff] at ht
      exact .inr ⟨_, _, ht ▸ hx, .inl ⟨_, _, trivia_mark.mp hclose, trivial⟩⟩
    | cons ht hx hcomma hxs =>
      rw [(hi hx).trivia_iff] at ht
      exact .inr ⟨_, _, ht ▸ hx, .inr ⟨_, _, trivia_mark.mp hcomma, (_, _), _, hxs, trivial⟩⟩
  · rintro (⟨span, rest, hs, -⟩ |
      ⟨x, ts₁, hx, ⟨span, rest, hs, -⟩ | ⟨comma, ts₂, hs, xs, rest, hxs, -⟩⟩)
    · exact ⟨([], span), rest, .nil (trivia_mark.mpr hs), trivial⟩
    · exact ⟨([x], span), rest, .last (trivia_skipTrivia ts) hx (trivia_mark.mpr hs), trivial⟩
    · exact ⟨(x :: xs.1, xs.2), rest,
        .cons (trivia_skipTrivia ts) hx (trivia_mark.mpr hs) hxs, trivial⟩

theorem then_entryAt :
    Then EntryAt K = Then ValueAt (Skipped (Next .colon (Skipped (Then ValueAt K)))) := by
  funext ts
  refine propext ⟨?_, ?_⟩
  · rintro ⟨⟨key, value⟩, rest, h, hK⟩
    obtain ⟨ts₁, span, ts₂, hkey, hcolon, hvalue⟩ := entryAt_iff.mp h
    exact ⟨key, ts₁, hkey, span, ts₂, hcolon, value, rest, hvalue, hK⟩
  · rintro ⟨key, ts₁, hkey, span, ts₂, hcolon, value, rest, hvalue, hK⟩
    exact ⟨(key, value), rest, entryAt_iff.mpr ⟨ts₁, span, ts₂, hkey, hcolon, hvalue⟩, hK⟩

theorem not_next_of_head (h : ∀ span rest, ts ≠ mark p span :: rest)
    (hhead : us.head? = ts.head?) : ¬ Next p K us := by
  rintro ⟨span, rest, rfl, -⟩
  obtain ⟨_, hs⟩ := List.head?_eq_some_iff.mp hhead.symm
  exact h _ _ hs

theorem isList_stops {Item : Tokens → α → Tokens → Prop}
    (hi : ∀ {ts x rest}, Item ts x rest → Begins ts)
    (hclose : ∀ span rest, skipTrivia ts ≠ mark p span :: rest)
    (h : Stops (Then Item (Goes Item p)) (skipTrivia ts) stop) : Stops (IsList Item p) ts stop := by
  rw [isList_eq hi]
  exact .skipped (.or Next.solid (Then.solid hi)) (h.or_right fun _ => not_next_of_head hclose)

theorem goes_stops {Item : Tokens → α → Tokens → Prop} (hp : Closing p)
    {f : Continuation ts → Except Fault β}
    (closed : ∀ span rest h, ¬ FailsAt (f (.closed span rest h)) stop)
    (more : ∀ rest h, FailsAt (f (.more rest h)) stop → Stops (IsList Item p) rest stop)
    (h : FailsAt (readContinuation p ts >>= f) stop) : Stops (Goes Item p) ts stop := by
  refine .skipped (.or Next.solid Next.solid) ?_
  rcases failsAt_bind.mp h with h | ⟨k, hk, h⟩
  · obtain ⟨rfl, hcomma, hclose⟩ := failsAt_readContinuation h
    refine stops_here (hp.next completable_anything).or_left (skipTrivia_skipTrivia ts) ?_
    rintro t ht _ (hnext | hnext)
    · exact absurd hnext (not_next_of_head hclose ht.symm)
    · exact absurd hnext (not_next_of_head hcomma ht.symm)
  · cases k with
    | closed span rest hlt => exact absurd h (closed _ _ _)
    | more rest hlt =>
      obtain ⟨span, hs⟩ := readContinuation_more.mp ⟨hlt, hk⟩
      rw [hs]
      refine (more rest hlt h).next.or_right ?_
      rintro _ hhead ⟨_, _, rfl, -⟩
      simp only [List.head?_cons, Option.some.injEq, mark_inj] at hhead
      exact hp.ne_comma hhead.1

-- ---------------------------------------------------------------------------
-- Values and lists
-- ---------------------------------------------------------------------------

/-- Reading a value stops where no value can go on. -/
def ValueStops (ts : Tokens) : Prop :=
  ∀ stop, skipTrivia ts = ts → FailsAt (readValue ts) stop → Stops IsValue ts stop

def ListStops (read : Punctuation → (ts : Tokens) → Outcome (Items α) ts)
    (Item : Tokens → α → Tokens → Prop) (ts : Tokens) : Prop :=
  ∀ p, Closing p → ∀ stop, FailsAt (read p ts) stop → Stops (IsList Item p) ts stop

theorem ValueStops.then (values : ValueStops (skipTrivia ts)) (hK : Completable K)
    (h : FailsAt (readValue (skipTrivia ts)) stop) :
    Stops (Then ValueAt K) (skipTrivia ts) stop := by
  obtain ⟨us, hmeek, hus⟩ := hK
  exact valuePart.inside (values stop (skipTrivia_skipTrivia ts) h)
    (fun _ _ hv => h.not_gives (gives_readValue.mpr hv)) hus fun _ => .of_meek hmeek

theorem next_stops (hK : Completable (Next p K)) (h : FailsAt (readMark p (skipTrivia ts)) stop) :
    Stops (Next p K) (skipTrivia ts) stop := by
  obtain ⟨rfl, hmark⟩ := failsAt_readMark h
  exact stops_here hK (skipTrivia_skipTrivia ts) fun t ht _ => not_next_of_head hmark ht.symm

theorem word_stops (hK : Completable K) (h : FailsAt (readWord (skipTrivia ts)) stop) :
    Stops (Word K) (skipTrivia ts) stop := by
  obtain ⟨rfl, hword⟩ := failsAt_readWord h
  refine stops_here hK.word (skipTrivia_skipTrivia ts) ?_
  rintro t ht _ ⟨w, _, hs, -⟩
  obtain ⟨rest, hrest⟩ := List.head?_eq_some_iff.mp ht
  obtain rfl := (List.cons.inj hs).1
  exact hword _ _ hrest

theorem listStops_readItems
    (values : ∀ ts₁ : Tokens, ts₁.length ≤ ts.length → ValueStops ts₁)
    (more : ∀ ts₁ : Tokens, ts₁.length < ts.length → ListStops readItems ValueAt ts₁) :
    ListStops readItems ValueAt ts := by
  intro p hp stop h
  have hle := length_skipTrivia_le ts
  rw [readItems] at h
  split at h
  · simp at h
  · next hc =>
    refine isList_stops ValueAt.begins (closing?_eq_none.mp hc) ?_
    rcases failsAt_bind.mp h with h | ⟨q, hq, h⟩
    · exact (values _ hle).then hp.goes h
    · have hlt := q.shorter
      refine valuePart.behind (gives_readValue.mp ⟨q, hq, rfl, rfl⟩)
        (goes_stops hp (fun _ _ _ => by simp) (fun rest h hf => ?_) h)
      refine more rest (by omega) p hp stop ?_
      exact failsAt_bind_ok.mp hf

theorem listStops_readEntries
    (values : ∀ ts₁ : Tokens, ts₁.length ≤ ts.length → ValueStops ts₁)
    (more : ∀ ts₁ : Tokens, ts₁.length < ts.length → ListStops readEntries EntryAt ts₁) :
    ListStops readEntries EntryAt ts := by
  intro p hp stop h
  have hle := length_skipTrivia_le ts
  rw [readEntries] at h
  split at h
  · simp at h
  · next hc =>
    refine isList_stops EntryAt.begins (closing?_eq_none.mp hc) ?_
    rw [then_entryAt]
    have hvalue : Completable (Skipped (Then ValueAt (Goes EntryAt p))) :=
      hp.goes.value.skipped (Then.solid ValueAt.begins)
    have hcolon := hvalue.next (p := .colon) nofun nofun
    rcases failsAt_bind.mp h with h | ⟨k, hk, h⟩
    · exact (values _ hle).then (hcolon.skipped Next.solid) h
    · have hlt := k.shorter
      have hle := length_skipTrivia_le k.rest
      refine valuePart.behind (gives_readValue.mp ⟨k, hk, rfl, rfl⟩) (.skipped Next.solid ?_)
      rcases failsAt_bind.mp h with h | ⟨c, hc, h⟩
      · exact next_stops hcolon h
      · have hlt := c.shorter
        have hle := length_skipTrivia_le c.rest
        rw [gives_readMark.mp ⟨c, hc, rfl, rfl⟩]
        refine .next (.skipped (Then.solid ValueAt.begins) ?_)
        rcases failsAt_bind.mp h with h | ⟨q, hq, h⟩
        · exact (values _ (by omega)).then hp.goes h
        · have hlt := q.shorter
          refine valuePart.behind (gives_readValue.mp ⟨q, hq, rfl, rfl⟩)
            (goes_stops hp (fun _ _ _ => by simp) (fun rest h hf => ?_) h)
          refine more rest (by omega) p hp stop ?_
          exact failsAt_bind_ok.mp hf

-- The tokens behind the bracket decide whether a call goes on.

theorem isValue_typedCall :
    IsValue (⟨.word name, span⟩ :: ⟨.punctuation .leftBracket, opening⟩ :: us) ↔
      Then (Listed ValueAt .rightBracket) (Next .leftParen (IsList ValueAt .rightParen)) us := by
  constructor
  · rintro ⟨v, rest, hv, -⟩
    cases hv with
    | word hw => exact absurd (.inr rfl) (hw _ rfl)
    | typedCall htypes hargs => exact ⟨(_, _), _, htypes, _, _, rfl, (_, _), _, hargs, trivial⟩
  · rintro ⟨types, rest, htypes, paren, ts₁, rfl, args, rest₁, hargs, -⟩
    exact ⟨_, rest₁, .typedCall (w := ⟨name, span⟩) htypes hargs, trivial⟩

theorem isValue_call (hn : name ≠ "Object") :
    IsValue (⟨.word name, span⟩ :: ⟨.punctuation .leftParen, paren⟩ :: us) ↔
      IsList ValueAt .rightParen us := by
  constructor
  · rintro ⟨v, rest, hv, -⟩
    cases hv with
    | word hw => exact absurd (.inl rfl) (hw _ rfl)
    | call _ hargs => exact ⟨(_, _), _, hargs, trivial⟩
    | bareObject h _ _ | object h _ _ _ => exact absurd h hn
  · rintro ⟨args, rest, hargs, -⟩
    exact ⟨_, rest, .call (w := ⟨name, span⟩) hn hargs, trivial⟩

theorem isValue_object (hn : name = "Object") :
    IsValue (⟨.word name, span⟩ :: ⟨.punctuation .leftParen, paren⟩ :: us) ↔
      Skipped (Word (Goes EntryAt .rightParen)) us := by
  constructor
  · rintro ⟨v, rest, hv, -⟩
    cases hv with
    | word hw => exact absurd (.inl rfl) (hw _ rfl)
    | call h _ => exact absurd hn h
    | bareObject _ hcls hclose =>
      exact ⟨_, _, trivia_word.mp hcls, .inl ⟨_, _, trivia_mark.mp hclose, trivial⟩⟩
    | object _ hcls hcomma hproperties =>
      exact ⟨_, _, trivia_word.mp hcls,
        .inr ⟨_, _, trivia_mark.mp hcomma, (_, _), _, hproperties, trivial⟩⟩
  · rintro ⟨cls, ts₁, hcls,
      ⟨close, rest, hs, -⟩ | ⟨comma, ts₂, hs, properties, rest, hproperties, -⟩⟩
    · exact ⟨_, rest, .bareObject (w := ⟨name, span⟩) hn (trivia_word.mpr hcls)
        (trivia_mark.mpr hs), trivial⟩
    · exact ⟨_, rest, .object (w := ⟨name, span⟩) hn (trivia_word.mpr hcls)
        (trivia_mark.mpr hs) hproperties, trivial⟩

theorem isValue_array :
    IsValue (⟨.punctuation .leftBracket, span⟩ :: us) ↔ IsList ValueAt .rightBracket us := by
  constructor
  · rintro ⟨v, rest, hv, -⟩
    cases hv with
    | array h => exact ⟨(_, _), _, h, trivial⟩
  · rintro ⟨items, rest, h, -⟩
    exact ⟨_, rest, .array h, trivial⟩

theorem isValue_dictionary :
    IsValue (⟨.punctuation .leftBrace, span⟩ :: us) ↔ IsList EntryAt .rightBrace us := by
  constructor
  · rintro ⟨v, rest, hv, -⟩
    cases hv with
    | dictionary h => exact ⟨(_, _), _, h, trivial⟩
  · rintro ⟨entries, rest, h, -⟩
    exact ⟨_, rest, .dictionary h, trivial⟩

theorem Stops.of_iff (c : Tokens) (h : Stops K ts stop) (hiff : ∀ us, L (c ++ us) ↔ K us) :
    Stops L (c ++ ts) stop :=
  h.behind c (fun us _ => (hiff us).mpr) fun us _ => (hiff us).mp

theorem isList_closing {Item : Tokens → α → Tokens → Prop} : IsList Item p [mark p ⟨0, 0⟩] :=
  ⟨([], ⟨0, 0⟩), [], .nil .none, trivial⟩

theorem typeArgs_stop (htypes : ListAt ValueAt .rightBracket ts typeArgs bracket stop)
    (hmark : ∀ span rest, stop ≠ mark .leftParen span :: rest) :
    Stops IsValue (⟨.word name, span⟩ :: ⟨.punctuation .leftBracket, opening⟩ :: ts) stop := by
  have part := listPart (p := .rightBracket) (.inl rfl)
  have hgap : BehindTypeArgs
      (⟨.word name, span⟩ :: ⟨.punctuation .leftBracket, opening⟩ :: ts) stop :=
    ⟨[], ⟨name, span⟩, opening, ts, typeArgs, bracket, rfl, htypes⟩
  obtain ⟨c, -, rfl, hc⟩ := part.extent (x := (typeArgs, bracket)) htypes
  refine ⟨⟨.word name, span⟩ :: ⟨.punctuation .leftBracket, opening⟩ :: c, rfl, ?_, ?_, ?_⟩
  · exact ⟨[mark .leftParen ⟨0, 0⟩, mark .rightParen ⟨0, 0⟩], .of_head rfl,
      isValue_typedCall.mpr ⟨_, _, hc _ trivial, _, _, rfl, isList_closing⟩⟩
  · intro t ht more hv
    obtain ⟨xs, rest, hxs, span, rest₁, rfl, -⟩ := isValue_typedCall.mp hv
    obtain ⟨rfl, rfl⟩ := List.cons.inj (part.unique (hc _ trivial) hxs)
    obtain ⟨rest₂, hrest⟩ := List.head?_eq_some_iff.mp ht
    exact hmark _ _ hrest
  · exact fun _ _ _ => hgap

theorem valueStops_typedCall
    (items : ∀ ts₁ : Tokens, ts₁.length ≤ ts.length → ListStops readItems ValueAt ts₁) :
    ValueStops (⟨.word name, span⟩ :: ⟨.punctuation .leftBracket, opening⟩ :: ts) := by
  intro stop _ h
  simp only [readValue, failsAt_begunValue] at h
  have part := listPart (p := .rightBracket) (.inl rfl)
  rcases failsAt_bind.mp h with h | ⟨types, htypes, h⟩
  · refine .of_iff [_, _] ?_ fun us => isValue_typedCall
    refine part.inside (items ts (Nat.le_refl _) _ (.inl rfl) _ h) (fun xs rest hxs => ?_)
      ⟨⟨0, 0⟩, _, rfl, isList_closing⟩ fun _ => trivial
    exact h.not_gives (((agrees ts).2.1 _ (.inl rfl) _ _ _).mpr hxs)
  · have hlist := ((agrees ts).2.1 _ (.inl rfl) _ _ _).mp ⟨types, htypes, rfl, rfl⟩
    rcases failsAt_bind.mp h with h | ⟨paren, hparen, h⟩
    · obtain ⟨rfl, hmark⟩ := failsAt_readMark h
      exact typeArgs_stop hlist hmark
    · have hlt := types.shorter
      have hlt₁ := paren.shorter
      refine .of_iff [_, _] (part.behind hlist ?_) fun us => isValue_typedCall
      rw [gives_readMark.mp ⟨paren, hparen, rfl, rfl⟩]
      refine .next (items _ (by omega) _ (.inr (.inl rfl)) _ ?_)
      exact failsAt_bind_ok.mp h

theorem valueStops_call (hn : name ≠ "Object") (items : ListStops readItems ValueAt ts) :
    ValueStops (⟨.word name, span⟩ :: ⟨.punctuation .leftParen, paren⟩ :: ts) := by
  intro stop _ h
  simp only [readValue, if_neg hn, failsAt_begunValue] at h
  refine .of_iff [_, _] (items _ (.inr (.inl rfl)) _ ?_) fun us => isValue_call hn
  exact failsAt_bind_ok.mp h

theorem valueStops_object (hn : name = "Object")
    (entries : ∀ ts₁ : Tokens, ts₁.length < ts.length → ListStops readEntries EntryAt ts₁) :
    ValueStops (⟨.word name, span⟩ :: ⟨.punctuation .leftParen, paren⟩ :: ts) := by
  intro stop _ h
  simp only [readValue, if_pos hn, failsAt_begunValue] at h
  have hclosing : Closing .rightParen := .inr (.inl rfl)
  have hle := length_skipTrivia_le ts
  refine .of_iff [_, _] (.skipped Word.solid ?_) fun us => isValue_object hn
  rcases failsAt_bind.mp h with h | ⟨cls, hcls, h⟩
  · exact word_stops hclosing.goes h
  · have hlt := cls.shorter
    rw [gives_readWord.mp ⟨cls, hcls, rfl, rfl⟩]
    refine .word (goes_stops hclosing (fun _ _ _ => by simp) (fun rest h hf => ?_) h)
    refine entries rest (by omega) _ hclosing stop ?_
    exact failsAt_bind_ok.mp hf

theorem valueStops_array (items : ListStops readItems ValueAt ts) :
    ValueStops (⟨.punctuation .leftBracket, span⟩ :: ts) := by
  intro stop _ h
  simp only [readValue, failsAt_begunValue] at h
  refine .of_iff [_] (items _ (.inl rfl) _ ?_) fun us => isValue_array
  exact failsAt_bind_ok.mp h

theorem valueStops_dictionary (entries : ListStops readEntries EntryAt ts) :
    ValueStops (⟨.punctuation .leftBrace, span⟩ :: ts) := by
  intro stop _ h
  simp only [readValue, failsAt_begunValue] at h
  refine .of_iff [_] (entries _ (.inr (.inr rfl)) _ ?_) fun us => isValue_dictionary
  exact failsAt_bind_ok.mp h

theorem valueStops_step
    (items : ∀ ts₁ : Tokens, ts₁.length < ts.length → ListStops readItems ValueAt ts₁)
    (entries : ∀ ts₁ : Tokens, ts₁.length < ts.length → ListStops readEntries EntryAt ts₁) :
    ValueStops ts := by
  fun_cases readValue ts with
  | case1 kind s span ts | case2 x span ts =>
    intro stop _ h
    simp [readValue] at h
  | case3 name span opening ts =>
    exact valueStops_typedCall fun ts₁ h => items ts₁ (by simp only [List.length_cons]; omega)
  | case4 name span paren ts =>
    by_cases hn : name = "Object"
    · exact valueStops_object hn fun ts₁ h => entries ts₁ (by simp only [List.length_cons]; omega)
    · exact valueStops_call hn (items ts (by simp only [List.length_cons]; omega))
  | case5 s span ts hb hp =>
    intro stop _ h
    rw [readValue_word, failsAt_ok] at h
    · exact h.elim
    · intro t ht hc
      obtain ⟨rest, rfl⟩ := List.head?_eq_some_iff.mp ht
      rcases hc with hc | hc <;> obtain ⟨p, rfl⟩ := exists_of_isMark hc
      · exact hp _ _ rfl
      · exact hb _ _ rfl
  | case6 span ts => exact valueStops_array (items ts (Nat.lt_succ_self _))
  | case7 span ts => exact valueStops_dictionary (entries ts (Nat.lt_succ_self _))
  | case8 ts hquoted hnumber _ _ hword hbracket hbrace =>
    have hread : readValue ts = .error (.here ts [.mark .leftBrace, .value]) := by
      rw [readValue] <;> assumption
    intro stop hsolid h
    rw [hread, failsAt_error] at h
    subst h
    refine stops_here completable_anything.value hsolid ?_
    rintro t ht more ⟨v, rest, hv, -⟩
    obtain ⟨ts₁, rfl⟩ := List.head?_eq_some_iff.mp ht
    cases hv with
    | quoted => exact hquoted _ _ _ _ rfl
    | number => exact hnumber _ _ _ rfl
    | array _ => exact hbracket _ _ rfl
    | dictionary _ => exact hbrace _ _ rfl
    | _ => exact hword _ _ _ rfl

theorem stops (ts : Tokens) :
    ValueStops ts ∧ ListStops readItems ValueAt ts ∧ ListStops readEntries EntryAt ts :=
  values_and_lists (V := ValueStops)
    (L := fun ts => ListStops readItems ValueAt ts ∧ ListStops readEntries EntryAt ts)
    (fun _ ih => valueStops_step (fun ts₁ h => (ih ts₁ h).1) fun ts₁ h => (ih ts₁ h).2)
    (fun _ hv ih => ⟨listStops_readItems hv fun ts₁ h => (ih ts₁ h).1,
      listStops_readEntries hv fun ts₁ h => (ih ts₁ h).2⟩) ts

-- ---------------------------------------------------------------------------
-- Properties
-- ---------------------------------------------------------------------------

theorem PropertyAt.begins {p : Property} (h : PropertyAt ts p rest) : Begins ts := by
  obtain ⟨ts₁, rfl⟩ := h.eq_word
  exact ⟨_, _, rfl, rfl, fun _ _ => rfl⟩

theorem then_propertyAt :
    Then PropertyAt K = Word (Skipped (Next .equals (Skipped (Then ValueAt K)))) := by
  funext ts
  refine propext ⟨?_, ?_⟩
  · rintro ⟨⟨key, value⟩, rest, h, hK⟩
    obtain ⟨ts₁, span, ts₂, rfl, hequals, hvalue⟩ := propertyAt_iff.mp h
    exact ⟨key, ts₁, rfl, span, ts₂, hequals, value, rest, hvalue, hK⟩
  · rintro ⟨key, ts₁, rfl, span, ts₂, hequals, value, rest, hvalue, hK⟩
    exact ⟨⟨key, value⟩, rest, propertyAt_iff.mpr ⟨ts₁, span, ts₂, rfl, hequals, hvalue⟩, hK⟩

theorem property_stops (hK : Completable K) (h : FailsAt (readProperty (skipTrivia ts)) stop) :
    Stops (Then PropertyAt K) (skipTrivia ts) stop := by
  rw [then_propertyAt]
  have hequals := (hK.value.skipped (Then.solid ValueAt.begins)).next (p := .equals) nofun nofun
  rcases failsAt_bind.mp h with h | ⟨key, hkey, h⟩
  · exact word_stops (hequals.skipped Next.solid) h
  · rw [gives_readWord.mp ⟨key, hkey, rfl, rfl⟩]
    refine .word (.skipped Next.solid ?_)
    rcases failsAt_bind.mp (failsAt_begun.mp h) with h | ⟨equals, he, h⟩
    · exact next_stops hequals h
    · rw [gives_readMark.mp ⟨equals, he, rfl, rfl⟩]
      refine .next (.skipped (Then.solid ValueAt.begins) ?_)
      exact (stops _).1.then hK (failsAt_bind_ok.mp h)

-- ---------------------------------------------------------------------------
-- Sections
-- ---------------------------------------------------------------------------

/-- The rest of a file, from a section on. -/
def File (ts : Tokens) : Prop := ∃ sections, FileOf ts sections

def Body (ts : Tokens) : Prop := ∃ ps rest, PropertiesAt ts ps rest ∧ File rest

def Attributes (ts : Tokens) : Prop :=
  ∃ ps ts₁, PropertiesAt ts ps ts₁ ∧ Skipped (Next .rightBracket Body) ts₁

def Opening (ts : Tokens) : Prop :=
  ts = [] ∨ Next .leftBracket (Skipped (Word Attributes)) ts

theorem Opening.solid : Solid Opening := by
  rintro ts (rfl | h)
  · rfl
  · exact Next.solid ts h

theorem file_eq : File = Skipped Opening := by
  funext ts
  refine propext ⟨?_, ?_⟩
  · rintro ⟨ss, h⟩
    rcases fileOf_iff.mp h with ⟨hs, -⟩ | ⟨span, ts₁, s, ts₂, ss, hs, rfl, ⟨ht, hps, hc, hls⟩, hss⟩
    · exact .inl hs
    · exact .inr ⟨span, ts₁, hs, _, _, trivia_word.mp ht, _, _, hps, _, _, trivia_mark.mp hc, _, _,
        hls, ss, hss⟩
  · rintro (hs | ⟨span, ts₁, hs, w, ts₂, ht, ps, ts₃, hps, closing, ts₄, hc, ls, ts₅, hls, ss, hss⟩)
    · exact ⟨[], fileOf_iff.mpr (.inl ⟨hs, rfl⟩)⟩
    · exact ⟨_, fileOf_iff.mpr (.inr ⟨span, ts₁, _, ts₅, ss, hs, rfl,
        .mk (trivia_word.mpr ht) hps (trivia_mark.mpr hc) hls, hss⟩)⟩

theorem body_eq : Body = Skipped fun ts => Opening ts ∨ Then PropertyAt Body ts := by
  funext ts
  refine propext ⟨?_, ?_⟩
  · rintro ⟨ps, rest, hps, hfile⟩
    cases hps with
    | nil =>
      rw [file_eq] at hfile
      exact .inl hfile
    | cons ht hp hps =>
      rw [hp.begins.trivia_iff] at ht
      exact .inr ⟨_, _, ht ▸ hp, _, _, hps, hfile⟩
  · rintro (h | ⟨p, ts₁, hp, ps, rest, hps, hfile⟩)
    · exact ⟨[], ts, .nil, file_eq ▸ (show Skipped Opening ts from h)⟩
    · exact ⟨p :: ps, rest, .cons (trivia_skipTrivia ts) hp hps, hfile⟩

theorem attributes_eq : Attributes =
    Skipped fun ts => Next .rightBracket Body ts ∨ Then PropertyAt Attributes ts := by
  funext ts
  refine propext ⟨?_, ?_⟩
  · rintro ⟨ps, ts₁, hps, h⟩
    cases hps with
    | nil => exact .inl h
    | cons ht hp hps =>
      rw [hp.begins.trivia_iff] at ht
      exact .inr ⟨_, _, ht ▸ hp, _, _, hps, h⟩
  · rintro (h | ⟨p, ts₁, hp, ps, ts₂, hps, h⟩)
    · exact ⟨[], ts, .nil, h⟩
    · exact ⟨p :: ps, ts₂, .cons (trivia_skipTrivia ts) hp hps, h⟩

theorem completable_opening : Completable Opening := ⟨[], nofun, .inl rfl⟩

theorem completable_body : Completable Body := by
  rw [body_eq]
  exact completable_opening.or_left.skipped (.or Opening.solid (Then.solid PropertyAt.begins))

theorem completable_attributes : Completable Attributes := by
  rw [attributes_eq]
  exact (Closing.next (.inl rfl) completable_body).or_left.skipped
    (.or Next.solid (Then.solid PropertyAt.begins))

theorem body_stops_opening (hs : EndsLines ts) (h : Stops Opening (skipTrivia ts) stop) :
    Stops Body ts stop := by
  rw [body_eq]
  refine .skipped (.or Opening.solid (Then.solid PropertyAt.begins)) (h.or_left ?_)
  rintro us hhead ⟨p, rest, hp, -⟩
  obtain ⟨ts₁, rfl⟩ := hp.eq_word
  obtain ⟨_, hs₁⟩ := List.head?_eq_some_iff.mp hhead.symm
  exact hs _ _ hs₁

theorem body_stops_line (hs : skipTrivia ts = word w :: rest)
    (h : Stops (Then PropertyAt Body) (skipTrivia ts) stop) : Stops Body ts stop := by
  rw [body_eq]
  refine .skipped (.or Opening.solid (Then.solid PropertyAt.begins)) (h.or_right ?_)
  rintro us hhead (rfl | ⟨span, rest, rfl, -⟩)
  · rw [hs] at hhead
    cases hhead
  · rw [hs] at hhead
    simp [mark, word] at hhead

theorem failsAt_readProperties_of_word (hs : skipTrivia ts = word w :: rest)
    (h : FailsAt (readProperties ts) stop) : FailsAt (readProperty (word w :: rest)) stop ∨
      ∃ q, readProperty (word w :: rest) = .ok q ∧ FailsAt (readProperties q.rest) stop := by
  obtain ⟨s, span⟩ := w
  rw [readProperties] at h
  split at h
  · next heq _ =>
    rw [hs] at heq
    cases heq
    rcases failsAt_bind.mp h with h | ⟨q, hq, h⟩
    · exact .inl h
    · exact .inr ⟨q, hq, failsAt_bind_ok.mp h⟩
  · simp at h

theorem body_stops (h : FailsAt (readProperties ts) stop ∨
    ∃ l, readProperties ts = .ok l ∧ Stops Opening (skipTrivia l.rest) stop) :
    Stops Body ts stop := by
  induction ts using readProperties.induct with
  | case1 ts s span ts₁ hle hs ih =>
    replace hs : skipTrivia ts = word ⟨s, span⟩ :: ts₁ := hs
    refine body_stops_line hs ?_
    have behind (q) (hq : readProperty (word ⟨s, span⟩ :: ts₁) = .ok q)
        (h : Stops Body q.rest stop) : Stops (Then PropertyAt Body) (skipTrivia ts) stop := by
      rw [hs]
      exact propertyPart.behind (gives_readProperty.mp ⟨q, hq, rfl, rfl⟩) h
    rcases h with h | ⟨l, hl, h⟩
    · rcases failsAt_readProperties_of_word hs h with h | ⟨q, hq, h⟩
      · rw [← hs] at h
        exact property_stops completable_body h
      · exact behind q hq (ih q.rest q.shorter (.inl h))
    · obtain ⟨q, hq, l₁, hl₁, -, hrest⟩ := (givesLines_of_word hs).mp ⟨l, hl, rfl, rfl⟩
      exact behind q hq (ih q.rest q.shorter (.inr ⟨l₁, hl₁, hrest ▸ h⟩))
  | case2 ts hle hne =>
    have hs : EndsLines ts := fun w rest h => hne _ _ _ (h ▸ hle) h (proof_irrel_heq _ _)
    obtain ⟨l, hl, -, hrest⟩ := (givesLines_of_endsLines hs).mpr ⟨rfl, rfl⟩
    rw [hl] at h
    rcases h with h | ⟨l₁, hl₁, h⟩
    · exact (failsAt_ok.mp h).elim
    · obtain rfl := Except.ok.inj hl₁
      exact body_stops_opening hs (hrest ▸ h)

theorem attributes_stops_line (hs : ∀ span rest, skipTrivia ts ≠ mark .rightBracket span :: rest)
    (h : Stops (Then PropertyAt Attributes) (skipTrivia ts) stop) : Stops Attributes ts stop := by
  rw [attributes_eq]
  exact .skipped (.or Next.solid (Then.solid PropertyAt.begins))
    (h.or_right fun _ => not_next_of_head hs)

theorem attributes_stops (h : FailsAt (readAttributes ts) stop ∨
    ∃ q, readAttributes ts = .ok q ∧ Stops Body q.rest stop) : Stops Attributes ts stop := by
  fun_induction readAttributes ts with
  | case1 ts span ts₁ hlt hc =>
    have hs := closing?_iff.mp ⟨hlt, hc⟩
    rcases h with h | ⟨q, hq, h⟩
    · exact (failsAt_ok.mp h).elim
    · obtain rfl := Except.ok.inj hq
      rw [attributes_eq]
      refine .skipped (.or Next.solid (Then.solid PropertyAt.begins)) ?_
      rw [hs]
      refine h.next.or_left ?_
      rintro us hhead ⟨p, rest, hp, -⟩
      obtain ⟨ts₂, rfl⟩ := hp.eq_word
      simp [mark, word] at hhead
  | case2 ts hc _ ih =>
    refine attributes_stops_line (closing?_eq_none.mp hc) ?_
    rcases h with h | ⟨q, hq, h⟩
    · rcases failsAt_bind.mp h with h | ⟨r, hr, h⟩
      · exact property_stops completable_attributes h
      · exact propertyPart.behind (gives_readProperty.mp ⟨r, hr, rfl, rfl⟩)
          (ih _ r.shorter (.inl (failsAt_bind_ok.mp h)))
    · obtain ⟨r, hr, hq⟩ := bind_ok.mp hq
      obtain ⟨q₁, hq₁, hq⟩ := bind_ok.mp hq
      obtain rfl := Except.ok.inj hq
      exact propertyPart.behind (gives_readProperty.mp ⟨r, hr, rfl, rfl⟩)
        (ih _ r.shorter (.inr ⟨q₁, hq₁, h⟩))

theorem header_stops (h : FailsAt (readSection ts) stop ∨
    ∃ q, readSection ts = .ok q ∧ Stops Opening (skipTrivia q.rest) stop) :
    Stops (Skipped (Word Attributes)) ts stop := by
  refine .skipped Word.solid ?_
  simp only [readSection, failsAt_begun, begun_ok] at h
  rcases h with h | ⟨q, hq, h⟩
  · rcases failsAt_bind.mp h with h | ⟨tag, htag, h⟩
    · exact word_stops completable_attributes h
    · rw [gives_readWord.mp ⟨tag, htag, rfl, rfl⟩]
      refine .word (attributes_stops ?_)
      rcases failsAt_bind.mp h with h | ⟨attributes, ha, h⟩
      · exact .inl h
      · refine .inr ⟨attributes, ha, body_stops (.inl ?_)⟩
        exact failsAt_bind_ok.mp h
  · obtain ⟨tag, htag, hq⟩ := bind_ok.mp hq
    obtain ⟨attributes, ha, hq⟩ := bind_ok.mp hq
    obtain ⟨l, hl, hq⟩ := bind_ok.mp hq
    obtain rfl := Except.ok.inj hq
    rw [gives_readWord.mp ⟨tag, htag, rfl, rfl⟩]
    exact .word (attributes_stops (.inr ⟨attributes, ha, body_stops (.inr ⟨l, hl, h⟩)⟩))

theorem sections_stop (h : FailsAt (readSections ts) stop) :
    Stops Opening (skipTrivia ts) stop := by
  fun_induction readSections ts with
  | case1 ts hs => exact (failsAt_ok.mp h).elim
  | case2 ts span ts₁ hs _ ih =>
    have header : Stops (Skipped (Word Attributes)) ts₁ stop := by
      rcases failsAt_bind.mp h with h | ⟨q, hq, h⟩
      · exact header_stops (.inl h)
      · refine header_stops (.inr ⟨q, hq, ih q.rest q.shorter ?_⟩)
        exact failsAt_bind_ok.mp h
    rw [hs]
    refine header.next.or_right ?_
    rintro _ hhead rfl
    cases hhead
  | case3 ts hne hnm =>
    obtain rfl := failsAt_error.mp h
    refine stops_here completable_opening (skipTrivia_skipTrivia ts) ?_
    rintro t ht more (hnil | hnext)
    · cases hnil
    · exact absurd hnext (not_next_of_head hnm ht.symm)

/-- A file is refused where it ceases to be the beginning of one. -/
theorem file_stops (h : FailsAt (readSections ts) stop) : Stops File ts stop := by
  rw [file_eq]
  exact .skipped Opening.solid (sections_stop h)

/-- Some file begins with the tokens. -/
def Viable (ts : Tokens) : Prop := ∃ more sections, Section.ofTokens (ts ++ more) = .ok sections

theorem viable_iff : Viable ts ↔ ∃ more, File (ts ++ more) := by
  simp only [Viable, File, ofTokens_ok, readSections_ok]

theorem diagnostic_of_meaningful (file : Tokens) {f : Fault} {t : Spanned Token}
    (hf : f.rest = t :: rest) (ht : t.value.isTrivia = false) :
    (f.diagnostic file).code = some .unexpectedToken ∧
      ((f.diagnostic file).labels.filter (·.primary)).map (·.span) = [t.span] := by
  have hfirst : firstMeaningful? f.rest = some t := by
    rw [firstMeaningful?_eq, hf, skipTrivia_cons ht]
    rfl
  rw [Fault.diagnostic, hfirst]
  refine ⟨rfl, ?_⟩
  dsimp only
  split
  · split <;> rfl
  · rfl

/-- A file that is refused is incomplete if more tokens would have made it one. Else
there is a first token with which no file can go on, and the report names that token;
if it is trivia, it stands right behind the type arguments of a call. -/
theorem ofTokens_error_located (h : Section.ofTokens ts = .error d) :
    (Viable ts → d.code = some .incompleteInput) ∧
      (¬ Viable ts → ∃ k t, ts[k]? = some t ∧ (∀ j ≤ k, Viable (ts.take j)) ∧
        ¬ Viable (ts.take (k + 1)) ∧
        (t.value.isTrivia = false → d.code = some .unexpectedToken ∧
          (d.labels.filter (·.primary)).map (·.span) = [t.span]) ∧
        (t.value.isTrivia → BehindTypeArgs ts (ts.drop k))) := by
  cases hread : readSections ts with
  | ok sections => simp [Section.ofTokens, hread, mapError_ok] at h
  | error f =>
    obtain rfl : f.diagnostic ts = d := by
      rw [Section.ofTokens, hread, mapError_error] at h
      exact Except.error.inj h
    obtain ⟨pre, hts, ⟨more, -, hmore⟩, stuck, gap⟩ := file_stops ⟨f, hread, rfl⟩
    cases hrest : f.rest with
    | nil =>
      rw [hrest, List.append_nil] at hts
      refine ⟨fun _ => ?_, fun hno => absurd (viable_iff.mpr ⟨more, hts ▸ hmore⟩) hno⟩
      rw [code_diagnostic, hrest]
      rfl
    | cons t left =>
      rw [hrest] at hts stuck gap
      constructor
      · intro hv
        obtain ⟨us, hus⟩ := viable_iff.mp hv
        rw [hts, List.append_assoc] at hus
        exact absurd hus (stuck t rfl _)
      · intro _
        subst hts
        refine ⟨pre.length, t, by simp, fun j hj => ?_, ?_, diagnostic_of_meaningful _ hrest, ?_⟩
        · refine viable_iff.mpr ⟨pre.drop j ++ more, ?_⟩
          rw [List.take_append_of_le_length hj, ← List.append_assoc, List.take_append_drop]
          exact hmore
        · intro hv
          obtain ⟨us, hus⟩ := viable_iff.mp hv
          rw [List.take_length_add_append, List.take_one, List.append_assoc] at hus
          exact stuck t rfl us hus
        · rw [List.drop_left]
          exact gap t rfl

/-- An array whose first item an equals sign follows on the next line. -/
def brokenArray : Tokens :=
  [Token.punctuation .leftBracket, .word "node", .punctuation .rightBracket, .newline, .word "tags",
    .punctuation .equals, .punctuation .leftBracket, .word "a", .newline,
    .punctuation .equals].mapIdx fun i t => ⟨t, ⟨i, i + 1⟩⟩

theorem ofTokens_error_located_array : ∃ d, Section.ofTokens brokenArray = .error d ∧
    ¬ Viable brokenArray ∧ ∃ k t, brokenArray[k]? = some t ∧
      (∀ j ≤ k, Viable (brokenArray.take j)) ∧ ¬ Viable (brokenArray.take (k + 1)) ∧
      (t.value.isTrivia = false → d.code = some .unexpectedToken ∧
        (d.labels.filter (·.primary)).map (·.span) = [t.span]) ∧
      (t.value.isTrivia → BehindTypeArgs brokenArray (brokenArray.drop k)) := by
  have hcode : (tryCatch ((Section.ofTokens brokenArray).map fun _ => none)
      fun d => pure d.code).toOption = some (some .unexpectedToken) := by
    decide +kernel
  cases h : Section.ofTokens brokenArray with
  | ok sections =>
    rw [h] at hcode
    cases hcode
  | error d =>
    rw [h] at hcode
    have hd : d.code = some .unexpectedToken := Option.some.inj hcode
    obtain ⟨incomplete, located⟩ := ofTokens_error_located h
    have hno : ¬ Viable brokenArray := by
      intro hv
      rw [incomplete hv] at hd
      cases hd
    exact ⟨d, rfl, hno, located hno⟩

end SceneDiagram.Grammar
