import SceneDiagram.Proofs.Section.Row

/-!
# Places that reading refers to

What a fault leaves, and what it takes for the beginning of the construct it is in, are
ends of the tokens read (`within_readSections`). So whatever the report of a fault or a
part of a section points at is made of the places of tokens.
-/

namespace SceneDiagram

/-- A kind of place to which what is made of two places of the kind belongs. -/
structure Span.Spanning (P : Span → Prop) : Prop where
  origin : P ⟨0, 0⟩
  union : ∀ s t, P s → P t → P (s.union t)

def Tokens.Placed (P : Span → Prop) (ts : Tokens) : Prop := ∀ t ∈ ts, P t.span

def Section.places (s : Section) : List Span :=
  s.tag.span :: (s.attributes ++ s.properties).map (·.value.span)

theorem Section.exists_part {s : Section} (h : span ∈ s.places) : ∃ x ∈ s.parts, x.span = span := by
  rcases List.mem_cons.mp h with rfl | h
  · exact ⟨_, List.mem_cons_self, rfl⟩
  · obtain ⟨p, hp, rfl⟩ := List.mem_map.mp h
    have hvalue : .value p.value ∈ p.parts := List.mem_cons_of_mem _ (List.mem_singleton_self _)
    exact ⟨_, List.mem_cons_of_mem _ (List.mem_flatMap.mpr ⟨p, hp, hvalue⟩), rfl⟩

theorem Section.place_of_lookup? {s : Section} (h : s.lookup? key = some v) :
    v.span ∈ s.places := by
  refine List.mem_cons_of_mem _ (List.mem_map.mpr ?_)
  rw [lookup?, attribute?] at h
  cases hheader : s.attributes.find? (·.key.value == key) with
  | some p =>
    rw [hheader] at h
    exact ⟨p, List.mem_append_left _ (List.mem_of_find?_eq_some hheader), by cases h; rfl⟩
  | none =>
    rw [hheader] at h
    obtain ⟨p, hp, rfl⟩ := Option.map_eq_some_iff.mp (h : Option.map _ _ = some v)
    exact ⟨p, List.mem_append_right _ (List.mem_of_find?_eq_some hp), rfl⟩

namespace Grammar

variable {ts us rest : Tokens} {p : Punctuation}

-- ---------------------------------------------------------------------------
-- Faults
-- ---------------------------------------------------------------------------

/-- A fault refers to nothing but ends of these tokens. -/
def Within (ts : Tokens) (x : Except Fault α) : Prop :=
  ∀ f, x = .error f → f.rest <:+ ts ∧ ∀ start ∈ f.since, start <:+ ts

theorem within_ok : Within ts (.ok a : Except Fault α) := nofun

theorem within_here (h : us <:+ ts) (expected : List Expectation) :
    Within ts (.error (.here us expected) : Except Fault α) := by
  rintro _ ⟨⟩
  exact ⟨h, nofun⟩

theorem Within.of_suffix {x : Except Fault α} (h : Within us x) (hsub : us <:+ ts) :
    Within ts x := by
  intro f hf
  obtain ⟨hrest, hsince⟩ := h f hf
  exact ⟨hrest.trans hsub, fun start hstart => (hsince start hstart).trans hsub⟩

theorem Within.bind {x : Except Fault α} {f : α → Except Fault β} (hx : Within ts x)
    (hf : ∀ a, x = .ok a → Within ts (f a)) : Within ts (x >>= f) := by
  cases x with
  | error e => exact fun _ h => hx _ (by cases h; rfl)
  | ok a => exact hf a rfl

theorem Within.pack {x : Except Fault α} {f : α → β} (hx : Within ts x) :
    Within ts (x >>= fun a => .ok (f a)) := hx.bind fun _ _ => within_ok

theorem Within.begun {x : Except Fault α} (hx : Within ts x) (hstart : start <:+ ts) :
    Within ts (begun start x) := by
  cases x with
  | ok a => exact within_ok
  | error e =>
    rintro _ ⟨⟩
    obtain ⟨hrest, hsince⟩ := hx e rfl
    refine ⟨hrest, fun first hfirst => ?_⟩
    rw [Fault.begun, Option.mem_def, Option.orElse_eq_orElse, Option.orElse_eq_or,
      Option.or_eq_some_iff] at hfirst
    rcases hfirst with hfirst | ⟨-, ⟨⟩⟩
    · exact hsince first hfirst
    · exact hstart

theorem Within.begunValue {x : Except Fault α} (hx : Within ts x) (hstart : start <:+ ts) :
    Within ts (begunValue start x) := by
  cases x with
  | ok a => exact within_ok
  | error e =>
    rintro _ ⟨⟩
    exact hx.begun hstart (e.begun start) rfl

theorem suffix_skipTrivia (ts : Tokens) : skipTrivia ts <:+ ts := (trivia_skipTrivia ts).suffix

theorem within_readMark (p : Punctuation) (ts : Tokens) : Within ts (readMark p ts) := by
  unfold readMark
  split
  · split
    · exact within_ok
    · exact within_here List.suffix_rfl _
  · exact within_here List.suffix_rfl _

theorem within_readWord (ts : Tokens) : Within ts (readWord ts) := by
  unfold readWord
  split
  · exact within_ok
  · exact within_here List.suffix_rfl _

theorem within_readContinuation (p : Punctuation) (ts : Tokens) :
    Within ts (readContinuation p ts) := by
  have hskip := suffix_skipTrivia ts
  unfold readContinuation
  split
  · next hs =>
    split
    · exact within_ok
    · split
      · exact within_ok
      · exact within_here (hs ▸ hskip) _
  · next hs => exact within_here (hs ▸ hskip) _

-- ---------------------------------------------------------------------------
-- What is behind what was read
-- ---------------------------------------------------------------------------

theorem suffix_readMark (h : readMark p ts = .ok q) : q.rest <:+ ts :=
  ⟨[mark p q.value], (gives_readMark.mp ⟨q, h, rfl, rfl⟩).symm⟩

theorem suffix_readWord (h : readWord ts = .ok q) : q.rest <:+ ts :=
  ⟨[word q.value], (gives_readWord.mp ⟨q, h, rfl, rfl⟩).symm⟩

theorem suffix_readContinuation (h : readContinuation p ts = .ok (.more rest shorter)) :
    rest <:+ ts := by
  obtain ⟨span, hs⟩ := readContinuation_more.mp ⟨shorter, h⟩
  exact (List.suffix_cons _ _).trans (hs ▸ suffix_skipTrivia ts)

theorem suffix_readValue (h : readValue ts = .ok q) : q.rest <:+ ts :=
  (gives_readValue.mp ⟨q, h, rfl, rfl⟩).suffix

theorem suffix_readItems (hp : Closing p) (h : readItems p ts = .ok q) : q.rest <:+ ts := by
  have hlist := ((agrees ts).2.1 p hp _ _ _).mp ⟨q, h, rfl, rfl⟩
  exact (List.suffix_cons _ _).trans (hlist.closed fun _ _ _ => ValueAt.suffix)

theorem suffix_readProperty (h : readProperty ts = .ok q) : q.rest <:+ ts :=
  (gives_readProperty.mp ⟨q, h, rfl, rfl⟩).extent.suffix

-- ---------------------------------------------------------------------------
-- Values and lists
-- ---------------------------------------------------------------------------

theorem Within.goes {f : Continuation us → Except Fault β} (hsub : us <:+ ts)
    (closed : ∀ span rest shorter, Within ts (f (.closed span rest shorter)))
    (more : ∀ rest shorter, rest <:+ ts → Within ts (f (.more rest shorter))) :
    Within ts (readContinuation p us >>= f) := by
  refine ((within_readContinuation p us).of_suffix hsub).bind fun k hk => ?_
  cases k with
  | closed span rest shorter => exact closed span rest shorter
  | more rest shorter => exact more rest shorter ((suffix_readContinuation hk).trans hsub)

def ListWithin (read : Punctuation → (ts : Tokens) → Outcome (Items α) ts) (ts : Tokens) : Prop :=
  ∀ p, Within ts (read p ts)

theorem listWithin_readItems
    (values : ∀ ts₁ : Tokens, ts₁.length ≤ ts.length → Within ts₁ (readValue ts₁))
    (more : ∀ ts₁ : Tokens, ts₁.length < ts.length → ListWithin readItems ts₁) :
    ListWithin readItems ts := by
  intro p
  have hskip := suffix_skipTrivia ts
  rw [readItems]
  split
  · exact within_ok
  · refine ((values _ hskip.length_le).of_suffix hskip).bind fun q hq => ?_
    have hrest := (suffix_readValue hq).trans hskip
    have hlt := Nat.lt_of_lt_of_le q.shorter hskip.length_le
    refine .goes hrest (fun _ _ _ => within_ok) fun rest shorter hsub => ?_
    exact ((more rest (Nat.lt_trans shorter hlt) p).of_suffix hsub).pack

theorem listWithin_readEntries
    (values : ∀ ts₁ : Tokens, ts₁.length ≤ ts.length → Within ts₁ (readValue ts₁))
    (more : ∀ ts₁ : Tokens, ts₁.length < ts.length → ListWithin readEntries ts₁) :
    ListWithin readEntries ts := by
  intro p
  -- Each part is read from an end of the list, so it is enough to follow these ends.
  have value (us : Tokens) (h : us <:+ ts) : Within ts (readValue us) :=
    (values us h.length_le).of_suffix h
  have hskip := suffix_skipTrivia ts
  rw [readEntries]
  split
  · exact within_ok
  · refine (value _ hskip).bind fun k hk => ?_
    have hkey := (suffix_skipTrivia k.rest).trans ((suffix_readValue hk).trans hskip)
    refine ((within_readMark _ _).of_suffix hkey).bind fun c hc => ?_
    have hcolon := (suffix_skipTrivia c.rest).trans ((suffix_readMark hc).trans hkey)
    refine (value _ hcolon).bind fun q hq => ?_
    have hrest := (suffix_readValue hq).trans hcolon
    have hlt := Nat.lt_of_lt_of_le q.shorter hcolon.length_le
    refine .goes hrest (fun _ _ _ => within_ok) fun rest shorter hsub => ?_
    exact ((more rest (Nat.lt_trans shorter hlt) p).of_suffix hsub).pack

theorem within_typedCall
    (items : ∀ ts₁ : Tokens, ts₁.length ≤ ts.length → ListWithin readItems ts₁) :
    Within (⟨.word name, span⟩ :: ⟨.punctuation .leftBracket, opening⟩ :: ts)
      (readValue (⟨.word name, span⟩ :: ⟨.punctuation .leftBracket, opening⟩ :: ts)) := by
  have hinside := List.suffix_append [⟨.word name, span⟩, ⟨.punctuation .leftBracket, opening⟩] ts
  rw [readValue]
  refine .begunValue (.of_suffix ?_ hinside) hinside
  refine (items ts (Nat.le_refl _) _).bind fun types htypes => ?_
  have htypes := suffix_readItems (.inl rfl) htypes
  refine ((within_readMark _ _).of_suffix htypes).bind fun paren hparen => ?_
  have hparen := (suffix_readMark hparen).trans htypes
  exact ((items _ hparen.length_le _).of_suffix hparen).pack

theorem within_call (items : ListWithin readItems ts)
    (entries : ∀ ts₁ : Tokens, ts₁.length < ts.length → ListWithin readEntries ts₁) :
    Within (⟨.word name, span⟩ :: ⟨.punctuation .leftParen, paren⟩ :: ts)
      (readValue (⟨.word name, span⟩ :: ⟨.punctuation .leftParen, paren⟩ :: ts)) := by
  have hinside := List.suffix_append [⟨.word name, span⟩, ⟨.punctuation .leftParen, paren⟩] ts
  rw [readValue]
  refine .begunValue (.of_suffix ?_ hinside) hinside
  split
  · have hskip := suffix_skipTrivia ts
    refine ((within_readWord _).of_suffix hskip).bind fun cls hcls => ?_
    have hrest := (suffix_readWord hcls).trans hskip
    have hlt := Nat.lt_of_lt_of_le cls.shorter hskip.length_le
    refine .goes hrest (fun _ _ _ => within_ok) fun rest shorter hsub => ?_
    exact ((entries rest (Nat.lt_trans shorter hlt) _).of_suffix hsub).pack
  · exact (items _).pack

theorem within_array (items : ListWithin readItems ts) :
    Within (⟨.punctuation .leftBracket, span⟩ :: ts)
      (readValue (⟨.punctuation .leftBracket, span⟩ :: ts)) := by
  have hinside := List.suffix_cons ⟨.punctuation .leftBracket, span⟩ ts
  rw [readValue]
  exact .begunValue ((items _).of_suffix hinside).pack hinside

theorem within_dictionary (entries : ListWithin readEntries ts) :
    Within (⟨.punctuation .leftBrace, span⟩ :: ts)
      (readValue (⟨.punctuation .leftBrace, span⟩ :: ts)) := by
  have hinside := List.suffix_cons ⟨.punctuation .leftBrace, span⟩ ts
  rw [readValue]
  exact .begunValue ((entries _).of_suffix hinside).pack hinside

theorem within_readValue_step
    (items : ∀ ts₁ : Tokens, ts₁.length < ts.length → ListWithin readItems ts₁)
    (entries : ∀ ts₁ : Tokens, ts₁.length < ts.length → ListWithin readEntries ts₁) :
    Within ts (readValue ts) := by
  fun_cases readValue ts with
  | case1 kind s span ts | case2 x span ts =>
    rw [readValue]
    exact within_ok
  | case3 name span opening ts =>
    exact within_typedCall fun ts₁ h => items ts₁ (by simp only [List.length_cons]; omega)
  | case4 name span paren ts =>
    exact within_call (items ts (by simp only [List.length_cons]; omega))
      fun ts₁ h => entries ts₁ (by simp only [List.length_cons]; omega)
  | case5 s span ts hb hp =>
    rw [readValue]
    · exact within_ok
    · exact hb
    · exact hp
  | case6 span ts => exact within_array (items ts (Nat.lt_succ_self _))
  | case7 span ts => exact within_dictionary (entries ts (Nat.lt_succ_self _))
  | case8 ts _ _ _ _ _ _ _ =>
    have hread : readValue ts = .error (.here ts [.mark .leftBrace, .value]) := by
      rw [readValue] <;> assumption
    rw [hread]
    exact within_here List.suffix_rfl _

theorem withinValues (ts : Tokens) :
    Within ts (readValue ts) ∧ ListWithin readItems ts ∧ ListWithin readEntries ts :=
  values_and_lists (V := fun ts => Within ts (readValue ts))
    (L := fun ts => ListWithin readItems ts ∧ ListWithin readEntries ts)
    (fun _ ih => within_readValue_step (fun ts₁ h => (ih ts₁ h).1) fun ts₁ h => (ih ts₁ h).2)
    (fun _ hv ih => ⟨listWithin_readItems hv fun ts₁ h => (ih ts₁ h).1,
      listWithin_readEntries hv fun ts₁ h => (ih ts₁ h).2⟩) ts

-- ---------------------------------------------------------------------------
-- Sections
-- ---------------------------------------------------------------------------

theorem within_readProperty (ts : Tokens) : Within ts (readProperty ts) := by
  refine (within_readWord ts).bind fun key hkey => ?_
  have hkey := suffix_readWord hkey
  have hequals := (suffix_skipTrivia key.rest).trans hkey
  refine .begun (((within_readMark _ _).of_suffix hequals).bind fun equals he => ?_) hkey
  have hvalue := (suffix_skipTrivia equals.rest).trans ((suffix_readMark he).trans hequals)
  exact ((withinValues _).1.of_suffix hvalue).pack

theorem within_readAttributes (ts : Tokens) : Within ts (readAttributes ts) := by
  fun_induction readAttributes ts with
  | case1 => exact within_ok
  | case2 ts hc _ ih =>
    have hskip := suffix_skipTrivia ts
    refine ((within_readProperty _).of_suffix hskip).bind fun first hfirst => ?_
    have hrest := (suffix_readProperty hfirst).trans hskip
    exact ((ih first.rest first.shorter).of_suffix hrest).pack

theorem within_readProperties (ts : Tokens) : Within ts (readProperties ts) := by
  induction ts using readProperties.induct with
  | case1 ts s span rest hle hs ih =>
    have hskip := hs ▸ suffix_skipTrivia ts
    rw [readProperties]
    split
    · next heq _ =>
      rw [hs] at heq
      cases heq
      refine ((within_readProperty _).of_suffix hskip).bind fun q hq => ?_
      have hrest := (suffix_readProperty hq).trans hskip
      exact ((ih q.rest q.shorter).of_suffix hrest).pack
    · exact within_ok
  | case2 ts hle hne =>
    rw [readProperties]
    split
    · next heq _ => exact (hne _ _ _ (heq ▸ hle) heq (proof_irrel_heq _ _)).elim
    · exact within_ok

theorem suffix_readAttributes (h : readAttributes ts = .ok q) : q.rest <:+ ts := by
  obtain ⟨ts₁, span, hps, hs⟩ := gives_readAttributes.mp ⟨q, h, rfl, rfl⟩
  exact ((List.suffix_cons _ _).trans (hs ▸ suffix_skipTrivia ts₁)).trans hps.suffix

theorem SectionAt.behind (h : SectionAt (mark .leftBracket span :: ts) s rest) : rest <:+ ts := by
  obtain ⟨htag, hattributes, hclosing, hproperties⟩ := h
  have hlines := hproperties.suffix.trans ((List.suffix_cons _ _).trans hclosing.suffix)
  exact hlines.trans (hattributes.suffix.trans ((List.suffix_cons _ _).trans htag.suffix))

theorem suffix_readSection (h : readSection ts = .ok q) : q.rest <:+ ts := by
  have hsection : SectionAt (mark .leftBracket ⟨0, 0⟩ :: ts) q.value q.rest :=
    (gives_readSection.mp ⟨q, h, rfl, rfl⟩).1
  exact hsection.behind

theorem within_readSection (ts : Tokens) : Within ts (readSection ts) := by
  have hskip := suffix_skipTrivia ts
  refine .begun ?_ List.suffix_rfl
  refine ((within_readWord _).of_suffix hskip).bind fun tag htag => ?_
  have htag := (suffix_readWord htag).trans hskip
  refine ((within_readAttributes _).of_suffix htag).bind fun attributes hattributes => ?_
  exact ((within_readProperties _).of_suffix ((suffix_readAttributes hattributes).trans htag)).pack

theorem within_readSections (ts : Tokens) : Within ts (readSections ts) := by
  fun_induction readSections ts with
  | case1 => exact within_ok
  | case2 ts span ts₁ hs _ ih =>
    have hinside := (List.suffix_cons _ ts₁).trans (hs ▸ suffix_skipTrivia ts)
    refine ((within_readSection ts₁).of_suffix hinside).bind fun q hq => ?_
    have hrest := (suffix_readSection hq).trans hinside
    exact ((ih q.rest q.shorter).of_suffix hrest).pack
  | case3 ts hne hnm => exact within_here (suffix_skipTrivia ts) _

-- ---------------------------------------------------------------------------
-- Reports
-- ---------------------------------------------------------------------------

section Places

open SceneDiagram.Span (Spanning)
open Tokens (Placed)

variable {P : Span → Prop}

theorem placed_of_suffix (h : Placed P ts) (hsub : us <:+ ts) : Placed P us :=
  fun t ht => h t (hsub.subset ht)

theorem placed_cons {t : Spanned Token} : Placed P (t :: ts) ↔ P t.span ∧ Placed P ts :=
  List.forall_mem_cons

theorem place_of_first (h : Placed P ts) (hsub : us <:+ ts)
    (hfirst : (firstMeaningful? us).map (·.span) = some span) : P span := by
  obtain ⟨t, ht, rfl⟩ := Option.map_eq_some_iff.mp hfirst
  exact h t (hsub.subset (List.mem_of_find?_eq_some ht))

theorem place_of_last (hP : Spanning P) (h : Placed P ts) :
    P (((lastMeaningful? ts).map (·.span)).getD ⟨0, 0⟩) := by
  cases hlast : lastMeaningful? ts with
  | none => exact hP.origin
  | some t => exact h t (List.mem_reverse.mp (List.mem_of_find?_eq_some hlast))

theorem labels_diagnostic {f : Fault} (hP : Spanning P) (h : Placed P ts) (hrest : f.rest <:+ ts)
    (hsince : ∀ start ∈ f.since, start <:+ ts) : ∀ l ∈ (f.diagnostic ts).labels, P l.span := by
  have hopening (span : Span)
      (hspan : (firstMeaningful? (f.since.getD f.rest)).map (·.span) = some span) : P span := by
    cases hstart : f.since with
    | none => exact place_of_first h hrest (by rwa [hstart] at hspan)
    | some start => exact place_of_first h (hsince start hstart) (by rwa [hstart] at hspan)
  intro l hl
  unfold Fault.diagnostic at hl
  split at hl
  · next offending hoffending =>
    have hplace : P offending.span := place_of_first h hrest (by rw [hoffending]; rfl)
    rcases List.mem_cons.mp hl with rfl | hl
    · exact hplace
    · split at hl
      · next span hspan =>
        split at hl
        · rw [List.mem_singleton.mp hl]
          exact hopening span hspan
        · cases hl
      · cases hl
  · rw [List.mem_singleton.mp hl]
    have hlast := place_of_last hP h
    cases hspan : (firstMeaningful? (f.since.getD f.rest)).map (·.span) with
    | none => exact hlast
    | some span => exact hP.union _ _ (hopening span hspan) hlast

theorem ofTokens_labels (hP : Spanning P) (h : Placed P ts)
    (hread : Section.ofTokens ts = .error d) : ∀ l ∈ d.labels, P l.span := by
  rw [Section.ofTokens] at hread
  cases hsections : readSections ts with
  | ok sections =>
    rw [hsections, mapError_ok] at hread
    cases hread
  | error f =>
    rw [hsections, mapError_error] at hread
    cases hread
    obtain ⟨hrest, hsince⟩ := within_readSections ts f hsections
    exact labels_diagnostic hP h hrest hsince

-- ---------------------------------------------------------------------------
-- Parts
-- ---------------------------------------------------------------------------

theorem ValueAt.place (hP : Spanning P) (hvalue : ValueAt ts v rest) (h : Placed P ts) :
    P v.span := by
  obtain ⟨t, us, rfl, ⟨hspan, -, -⟩ | ⟨close, hspan, hrow⟩⟩ := hvalue.row
  · rw [hspan]
    exact (placed_cons.mp h).1
  · obtain ⟨hfirst, h⟩ := placed_cons.mp h
    have hclose := (hrow.suffix fun _ _ _ => ValueAt.suffix).subset List.mem_cons_self
    rw [hspan]
    exact hP.union _ _ hfirst (h close hclose)

theorem PartAt.place (hP : Spanning P) (hpart : PartAt ts x rest) (h : Placed P ts) :
    P x.span := by
  cases hpart with
  | word => exact (placed_cons.mp h).1
  | value hvalue => exact hvalue.place hP h

theorem ofTokens_places (hP : Spanning P) (h : Placed P ts)
    (hread : Section.ofTokens ts = .ok sections) : ∀ s ∈ sections, ∀ span ∈ s.places, P span := by
  have hrow := row_of_ofTokens hread
  intro s hs span hspan
  obtain ⟨x, hx, rfl⟩ := Section.exists_part hspan
  obtain ⟨us, us₁, hus, hpart⟩ :=
    hrow.reads (fun _ _ _ => PartAt.suffix) x (List.mem_flatMap.mpr ⟨s, hs, hx⟩)
  exact hpart.place hP (placed_of_suffix h hus)

end Places

end Grammar
end SceneDiagram
