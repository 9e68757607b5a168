import SceneDiagram.Proofs.Section.Extent

/-!
# Where no file can go on

What can stand at some point of a file is a set of lists of tokens. `Stops` says of
a list where it leaves the set: in front of the first token behind which no
completion helps. That carries over from a part to what holds it, from behind a part
(`Part.behind`) and from inside of it (`Part.inside`).
-/

namespace SceneDiagram.Grammar

variable {ts us rest stop : Tokens} {p : Punctuation} {K L : Tokens → Prop}
  {Reads : Tokens → α → Tokens → Prop}

-- ---------------------------------------------------------------------------
-- What can stand at a point
-- ---------------------------------------------------------------------------

/-- A part, and `K` behind it. -/
def Then (Reads : Tokens → α → Tokens → Prop) (K : Tokens → Prop) (ts : Tokens) : Prop :=
  ∃ x rest, Reads ts x rest ∧ K rest

def Next (p : Punctuation) (K : Tokens → Prop) (ts : Tokens) : Prop :=
  ∃ span rest, ts = mark p span :: rest ∧ K rest

def Word (K : Tokens → Prop) (ts : Tokens) : Prop := ∃ w rest, ts = word w :: rest ∧ K rest

def Skipped (K : Tokens → Prop) (ts : Tokens) : Prop := K (skipTrivia ts)

def Anything (_ : Tokens) : Prop := True

abbrev IsValue : Tokens → Prop := Then ValueAt Anything

def Listed (Item : Tokens → α → Tokens → Prop) (p : Punctuation) (ts : Tokens) (xs : Items α)
    (rest : Tokens) : Prop :=
  ListAt Item p ts xs.1 xs.2 rest

abbrev IsList (Item : Tokens → α → Tokens → Prop) (p : Punctuation) : Tokens → Prop :=
  Then (Listed Item p) Anything

/-- What may stand behind an item of a list. -/
def Goes (Item : Tokens → α → Tokens → Prop) (p : Punctuation) : Tokens → Prop :=
  Skipped fun ts => Next p Anything ts ∨ Next .comma (IsList Item p) ts

theorem skipTrivia_skipTrivia (ts : Tokens) : skipTrivia (skipTrivia ts) = skipTrivia ts :=
  (trivia_skipTrivia ts).skipTrivia_eq.symm

def Solid (K : Tokens → Prop) : Prop := ∀ ts, K ts → skipTrivia ts = ts

theorem Next.solid : Solid (Next p K) := by
  rintro _ ⟨span, rest, rfl, -⟩
  exact skipTrivia_cons rfl

theorem Word.solid : Solid (Word K) := by
  rintro _ ⟨w, rest, rfl, -⟩
  exact skipTrivia_cons rfl

theorem Then.solid (h : ∀ {ts x rest}, Reads ts x rest → Begins ts) : Solid (Then Reads K) := by
  rintro _ ⟨x, rest, hx, -⟩
  exact (h hx).skipTrivia_eq

theorem Solid.or (hL : Solid L) (hK : Solid K) : Solid fun ts => L ts ∨ K ts :=
  fun ts h => h.elim (hL ts) (hK ts)

/-- `K` can begin behind any part: with tokens that turn no word in front of them into
a call. -/
def Completable (K : Tokens → Prop) : Prop := ∃ us, (∀ t ∈ us.head?, ¬ OpensCall t) ∧ K us

theorem Completable.next (h : Completable K) (hp : p ≠ .leftParen) (hb : p ≠ .leftBracket) :
    Completable (Next p K) := by
  obtain ⟨us, -, hus⟩ := h
  refine ⟨mark p ⟨0, 0⟩ :: us, ?_, _, us, rfl, hus⟩
  rintro _ ⟨⟩
  simp [OpensCall, hp, hb]

theorem Completable.word (h : Completable K) : Completable (Word K) := by
  obtain ⟨us, -, hus⟩ := h
  refine ⟨Grammar.word ⟨"", ⟨0, 0⟩⟩ :: us, ?_, _, us, rfl, hus⟩
  rintro _ ⟨⟩
  simp [OpensCall, Grammar.word, Token.isMark]

/-- With a number, for want of any other value. -/
theorem Completable.value (h : Completable K) : Completable (Then ValueAt K) := by
  obtain ⟨us, -, hus⟩ := h
  refine ⟨⟨.number 0, ⟨0, 0⟩⟩ :: us, ?_, _, us, .number, hus⟩
  rintro _ ⟨⟩
  simp [OpensCall, Token.isMark]

theorem Completable.skipped (h : Completable K) (hK : Solid K) : Completable (Skipped K) := by
  obtain ⟨us, hmeek, hus⟩ := h
  refine ⟨us, hmeek, ?_⟩
  rw [Skipped, hK us hus]
  exact hus

theorem Completable.or_left (h : Completable L) : Completable fun ts => L ts ∨ K ts := by
  obtain ⟨us, hmeek, hus⟩ := h
  exact ⟨us, hmeek, .inl hus⟩

theorem completable_anything : Completable Anything := ⟨[], nofun, trivial⟩

theorem Closing.next (h : Closing p) (hK : Completable K) : Completable (Next p K) := by
  rcases h with rfl | rfl | rfl <;> exact hK.next nofun nofun

theorem Closing.goes {Item : Tokens → α → Tokens → Prop} (h : Closing p) :
    Completable (Goes Item p) :=
  (h.next completable_anything).or_left.skipped (.or Next.solid Next.solid)

-- ---------------------------------------------------------------------------
-- Stopping
-- ---------------------------------------------------------------------------

/-- The tokens left stand right behind the type arguments of a call. -/
def BehindTypeArgs (ts left : Tokens) : Prop :=
  ∃ before w opening args typeArgs bracket,
    ts = before ++ word w :: mark .leftBracket opening :: args ∧
      ListAt ValueAt .rightBracket args typeArgs bracket left

theorem BehindTypeArgs.append (c : Tokens) (h : BehindTypeArgs ts stop) :
    BehindTypeArgs (c ++ ts) stop := by
  obtain ⟨before, w, opening, args, typeArgs, bracket, rfl, h⟩ := h
  exact ⟨c ++ before, w, opening, args, typeArgs, bracket, (List.append_assoc ..).symm, h⟩

/-- Behind `pre` is the first point where `L` is left: `pre` can still be completed,
but not with the next token. -/
structure StopsBehind (L : Tokens → Prop) (pre stop : Tokens) : Prop where
  /-- The completion turns no word in front of it into a call that is none by now. -/
  completes : ∃ more, Follows (pre ++ stop) (pre ++ more) ∧ L (pre ++ more)
  stuck : ∀ t ∈ stop.head?, ∀ more, ¬ L (pre ++ t :: more)
  /-- Everywhere else trivia is skipped. -/
  gap : ∀ t ∈ stop.head?, t.value.isTrivia → BehindTypeArgs (pre ++ stop) stop

/-- `L` is left where the tokens `stop` begin. -/
def Stops (L : Tokens → Prop) (ts stop : Tokens) : Prop :=
  ∃ pre, ts = pre ++ stop ∧ StopsBehind L pre stop

/-- What is left behind the tokens `c` is left with them in front. -/
theorem Stops.behind (c : Tokens) (h : Stops K ts stop)
    (up : ∀ us, Follows ts us → K us → L (c ++ us))
    (down : ∀ us, us.head? = ts.head? → L (c ++ us) → K us) : Stops L (c ++ ts) stop := by
  obtain ⟨pre, rfl, ⟨more, hfollows, hmore⟩, stuck, gap⟩ := h
  refine ⟨c ++ pre, (List.append_assoc ..).symm, ?_, ?_, ?_⟩
  · simp only [List.append_assoc]
    exact ⟨more, hfollows.append c, up _ hfollows hmore⟩
  · intro t ht more hL
    obtain ⟨stop, rfl⟩ := List.head?_eq_some_iff.mp ht
    rw [List.append_assoc] at hL
    exact stuck t ht more (down _ (by cases pre <;> rfl) hL)
  · intro t ht hs
    rw [List.append_assoc]
    exact (gap t ht hs).append c

theorem Stops.or_right (h : Stops K ts stop) (hL : ∀ us, us.head? = ts.head? → ¬ L us) :
    Stops (fun us => L us ∨ K us) ts stop :=
  h.behind [] (fun _ _ => .inr) fun us hus => (·.resolve_left (hL us hus))

theorem Stops.or_left (h : Stops K ts stop) (hL : ∀ us, us.head? = ts.head? → ¬ L us) :
    Stops (fun us => K us ∨ L us) ts stop :=
  h.behind [] (fun _ _ => .inl) fun us hus => (·.resolve_right (hL us hus))

theorem Stops.next (h : Stops K ts stop) : Stops (Next p K) (mark p span :: ts) stop := by
  refine h.behind [mark p span] (fun us _ hus => ⟨span, us, rfl, hus⟩) ?_
  rintro us - ⟨_, _, ⟨⟩, hus⟩
  exact hus

theorem Stops.word (h : Stops K ts stop) : Stops (Word K) (word w :: ts) stop := by
  refine h.behind [Grammar.word w] (fun us _ hus => ⟨w, us, rfl, hus⟩) ?_
  rintro us - ⟨_, rest, h, hus⟩
  obtain rfl : us = rest := (List.cons.inj h).2
  exact hus

theorem Stops.skipped (hK : Solid K) (h : Stops K (skipTrivia ts) stop) :
    Stops (Skipped K) ts stop := by
  obtain ⟨c, hc, htrivia⟩ := (trivia_skipTrivia ts).extent
  rw [hc]
  refine h.behind c (fun us _ hus => ?_) fun us hhead hus => ?_
  · rw [Skipped, (htrivia us).skipTrivia_eq, hK us hus]
    exact hus
  · rw [Skipped, (htrivia us).skipTrivia_eq] at hus
    have hsolid : skipTrivia us = us := by
      cases us with
      | nil => rfl
      | cons t us =>
        obtain ⟨rest, hs⟩ := List.head?_eq_some_iff.mp hhead.symm
        exact skipTrivia_cons (isTrivia_of_skipTrivia hs)
    exact hsolid ▸ hus

theorem stops_here (h : Completable L) (hsolid : skipTrivia ts = ts)
    (stuck : ∀ t ∈ ts.head?, ∀ more, ¬ L (t :: more)) : Stops L ts ts := by
  obtain ⟨us, hmeek, hus⟩ := h
  refine ⟨[], rfl, ⟨us, .of_meek hmeek, hus⟩, stuck, fun t ht hs => ?_⟩
  obtain ⟨rest, rfl⟩ := List.head?_eq_some_iff.mp ht
  rw [isTrivia_of_skipTrivia hsolid] at hs
  cases hs

-- ---------------------------------------------------------------------------
-- Parts
-- ---------------------------------------------------------------------------

/-- A kind of part that is read in one way and stands in a front of the tokens, where
`F` says what may be behind it instead. -/
structure Part (Reads : Tokens → α → Tokens → Prop) (F : Tokens → Tokens → Prop) : Prop where
  extent : ∀ {ts x rest}, Reads ts x rest →
    ∃ c, c ≠ [] ∧ ts = c ++ rest ∧ ∀ us, F rest us → Reads (c ++ us) x us
  unique : ∀ {ts x rest y rest₁}, Reads ts x rest → Reads ts y rest₁ → rest = rest₁
  follows : ∀ {rest us}, Follows rest us → F rest us

theorem Part.behind {F : Tokens → Tokens → Prop} (part : Part Reads F) (hx : Reads ts x rest)
    (h : Stops K rest stop) : Stops (Then Reads K) ts stop := by
  obtain ⟨c, -, rfl, hc⟩ := part.extent hx
  refine h.behind c (fun us hf hK => ⟨x, us, hc us (part.follows hf), hK⟩) ?_
  rintro us hhead ⟨y, rest₁, hy, hK⟩
  rw [part.unique (hc us (part.follows (.of_head hhead))) hy]
  exact hK

theorem Part.inside {F : Tokens → Tokens → Prop} (part : Part Reads F)
    (h : Stops (Then Reads Anything) ts stop) (hno : ∀ x rest, ¬ Reads ts x rest)
    (hus : K us) (hF : ∀ rest, F rest us) : Stops (Then Reads K) ts stop := by
  obtain ⟨pre, rfl, ⟨more, hfollows, x, rest, hx, -⟩, stuck, gap⟩ := h
  obtain ⟨c, hne, hc, hreads⟩ := part.extent hx
  -- The part does not end inside `pre`, else it were read.
  have hd : ∃ d, c = pre ++ d ∧ more = d ++ rest := by
    rcases List.append_eq_append_iff.mp hc with ⟨d, hd⟩ | ⟨d, rfl, rfl⟩
    · exact ⟨d, hd⟩
    · cases d with
      | nil => exact ⟨[], by simp, rfl⟩
      | cons t d =>
        have hread := hreads (t :: d ++ stop) (part.follows (.of_head rfl))
        rw [← List.append_assoc] at hread
        exact absurd hread (hno _ _)
  obtain ⟨d, rfl, rfl⟩ := hd
  have hread := hreads us (hF rest)
  rw [List.append_assoc] at hread
  refine ⟨pre, rfl, ⟨d ++ us, fun t ht => hfollows t ?_, x, us, hread, hus⟩, ?_, gap⟩
  · rw [← List.append_assoc] at ht ⊢
    obtain ⟨t₁, c₁, hcons⟩ := List.exists_cons_of_ne_nil hne
    rw [hcons] at ht ⊢
    exact ht
  · rintro t ht more ⟨y, rest₁, hy, -⟩
    exact stuck t ht more ⟨y, rest₁, hy, trivial⟩

theorem valuePart : Part ValueAt Follows where
  extent h := h.extent
  unique hv hw := by
    obtain ⟨p, hp, -, rfl⟩ := gives_readValue.mpr hv
    obtain ⟨q, hq, -, rfl⟩ := gives_readValue.mpr hw
    rw [Except.ok.inj (hp.symm.trans hq)]
  follows h := h

theorem propertyPart : Part PropertyAt Follows where
  extent h := h.extent
  unique hv hw := by
    obtain ⟨p, hp, -, rfl⟩ := gives_readProperty.mpr hv
    obtain ⟨q, hq, -, rfl⟩ := gives_readProperty.mpr hw
    rw [Except.ok.inj (hp.symm.trans hq)]
  follows h := h

theorem listPart (hp : Closing p) : Part (Listed ValueAt p) fun _ _ => True where
  extent h := by
    obtain ⟨c, hne, hc, hreads⟩ := (value_and_list_extent _).2.1 p _ _ _ h
    exact ⟨c, hne, hc, fun us _ => hreads us⟩
  unique hv hw := by
    obtain ⟨p, hp₁, -, rfl⟩ := ((agrees _).2.1 p hp _ _ _).mpr hv
    obtain ⟨q, hq, -, rfl⟩ := ((agrees _).2.1 _ hp _ _ _).mpr hw
    rw [Except.ok.inj (hp₁.symm.trans hq)]
  follows _ := trivial

end SceneDiagram.Grammar
