import SceneDiagram.Proofs.Scene.Placing
import SceneDiagram.Proofs.Section.Layout
import SceneDiagram.Proofs.Token.Tiling

/-!
# Line endings

`read_crlf`: a scene is read the same if its lines end with a carriage return in front of
the line break, unless a quoted text reaches over a line. The carriage return goes to the
comment or the white space in front, or is white space of its own (`Spelling.respelled`), so
that the outline of the tokens stays what it is (`Cover.respelled`).
-/

namespace SceneDiagram

open Text

-- ---------------------------------------------------------------------------
-- Characters
-- ---------------------------------------------------------------------------

def withReturns (cs : List Char) : List Char :=
  cs.flatMap fun c => if c = '\n' then ['\r', '\n'] else [c]

theorem withReturns_append (v w : List Char) :
    withReturns (v ++ w) = withReturns v ++ withReturns w := List.flatMap_append

theorem withReturns_line (cs : List Char) :
    withReturns ('\n' :: cs) = '\r' :: '\n' :: withReturns cs := rfl

theorem withReturns_cons (h : c ≠ '\n') : withReturns (c :: cs) = c :: withReturns cs := by
  rw [withReturns, List.flatMap_cons, if_neg h]
  rfl

theorem withReturns_eq (h : '\n' ∉ w) : withReturns w = w := by
  induction w with
  | nil => rfl
  | cons c w ih =>
    rw [List.mem_cons, not_or] at h
    rw [withReturns_cons (Ne.symm h.1), ih h.2]

theorem head?_withReturns {P : Char → Prop} (h : ∀ c ∈ cs.head?, P c) (hreturn : P '\r') :
    ∀ c ∈ (withReturns cs).head?, P c := by
  cases cs with
  | nil => exact h
  | cons c cs =>
    by_cases hc : c = '\n'
    · subst hc
      simpa [withReturns_line] using hreturn
    · simpa [withReturns_cons hc] using h

theorem read?_withReturns (w rest : List Char) :
    Number.read? (w ++ withReturns rest) = Number.read? (w ++ rest) := by
  obtain ⟨line, r, rfl, hline, hr, -⟩ := exists_run (· != '\n') rest
  have hend : Number.AtLineEnd r := fun c hc => .inl (by simpa using hr c hc)
  have hend' : Number.AtLineEnd (withReturns r) := head?_withReturns hend (.inr rfl)
  have hno : '\n' ∉ line := fun h => by simpa using hline _ h
  rw [withReturns_append, withReturns_eq hno, ← List.append_assoc, ← List.append_assoc,
    Number.read?_append hend, Number.read?_append hend']

-- ---------------------------------------------------------------------------
-- Tokens
-- ---------------------------------------------------------------------------

/-- What becomes of a token, spelled `w`, where the lines of the text end in another way. -/
inductive Respelled (t : Token) (w rest : List Char) : Prop
  | newline : t = .newline → w = ['\n'] → Respelled t w rest
  | keeps : '\n' ∉ w → Spelling t w (withReturns rest) → Respelled t w rest
  /-- The token takes in the carriage return behind it. -/
  | takes : '\n' ∉ w → t.isTrivia → rest = '\n' :: r → t'.isTrivia →
      Spelling t' (w ++ ['\r']) ('\n' :: withReturns r) → Respelled t w rest

theorem Spelling.on_line (h : Spelling t w rest) (hquoted : ∀ kind s, t = .quoted kind s → '\n' ∉ w)
    (hline : t ≠ .newline) : '\n' ∉ w := by
  cases h with
  | comment hrun =>
    rw [List.mem_cons, not_or]
    exact ⟨by decide, fun h => hrun _ h rfl⟩
  | quoted => exact hquoted _ _ rfl
  | number _ hread => exact fun h => absurd (isBlank_of_number hread _ h) (by decide)
  | word hc hw => exact fun h => absurd (isBlank_of_word hc hw _ h) (by decide)
  | @punctuation p => cases p <;> simp [Punctuation.char]
  | newline => exact absurd rfl hline
  | blank _ hw => exact fun h => absurd (hw _ h) (by decide)

theorem Spelling.respelled (h : Spelling t w rest)
    (hquoted : ∀ kind s, t = .quoted kind s → '\n' ∉ w) : Respelled t w rest := by
  have hon := h.on_line hquoted
  cases h with
  | @comment line rest hline hrest =>
    cases rest with
    | nil => exact .keeps (hon nofun) (.comment hline hrest)
    | cons c r =>
      obtain rfl : c = '\n' := hrest c rfl
      have hline' : ∀ c ∈ line ++ ['\r'], c ≠ '\n' := by
        simpa [or_imp, forall_and] using hline
      exact .takes (hon nofun) rfl rfl rfl (.comment hline' (by simp))
  | quoted hraw => exact .keeps (hon nofun) (.quoted hraw)
  | number hne hread => exact .keeps (hon nofun) (.number hne (by rwa [read?_withReturns]))
  | word hc hw hrest hn =>
    have hrest' := head?_withReturns hrest (isWordChar_of_isBlank rfl)
    exact .keeps (hon nofun) (.word hc hw hrest' (by rwa [read?_withReturns]))
  | punctuation => exact .keeps (hon nofun) .punctuation
  | newline => exact .newline rfl rfl
  | blank hne hw hrest =>
    cases rest with
    | nil => exact .keeps (hon nofun) (.blank hne hw hrest)
    | cons c r =>
      by_cases hc : c = '\n'
      · subst hc
        have hw' : ∀ c ∈ w ++ ['\r'], isInlineBlank c := by
          simpa [or_imp, forall_and] using ⟨hw, by decide⟩
        exact .takes (hon nofun) rfl rfl rfl (.blank (by simp) hw' hrest)
      · refine .keeps (hon nofun) (.blank hne hw ?_)
        rwa [withReturns_cons hc]

theorem QuotedBody.Spells.mem_line (h : Spells raw text) (hraw : '\n' ∈ raw) : '\n' ∈ text := by
  induction h with
  | nil => exact hraw
  | @escaped _ _ c _ ih =>
    rcases List.mem_cons.mp hraw with heq | hraw
    · cases heq
    · rcases List.mem_cons.mp hraw with rfl | hraw
      · exact List.mem_cons_self
      · exact List.mem_cons_of_mem _ (ih hraw)
  | plain _ _ _ ih =>
    rcases List.mem_cons.mp hraw with rfl | hraw
    · exact List.mem_cons_self
    · exact List.mem_cons_of_mem _ (ih hraw)

namespace Tokens

def SameOutline (s t : Tokens) : Prop :=
  ∀ before parted, Grammar.outlineBehind before parted s = Grammar.outlineBehind before parted t

theorem SameOutline.cons (h : SameOutline s t) (x : Token) (p q : Span) :
    SameOutline (⟨x, p⟩ :: s) (⟨x, q⟩ :: t) := by
  intro before parted
  rw [Grammar.outlineBehind, Grammar.outlineBehind, h, h]

theorem SameOutline.trivia (h : SameOutline s t) (hx : x.value.isTrivia) (hy : y.value.isTrivia) :
    SameOutline (x :: s) (y :: t) := by
  intro before parted
  rw [Grammar.outlineBehind, if_pos hx, Grammar.outlineBehind, if_pos hy, h]

theorem SameOutline.more (h : SameOutline (x :: s) t) (hx : x.value.isTrivia)
    (hy : y.value.isTrivia) : SameOutline (x :: s) (y :: t) := by
  intro before parted
  rw [Grammar.outlineBehind, if_pos hx, Grammar.outlineBehind, if_pos hy, ← h,
    Grammar.outlineBehind, if_pos hx]

/-- No quoted text among the tokens reaches over the end of a line of `source`. -/
def QuotesEnd (source : String) (ts : Tokens) : Prop :=
  ∀ t ∈ ts, ∀ kind s, t.value = .quoted kind s → ∀ before text after,
    t.span.Cuts source before text after → '\n' ∉ text.toList

theorem quotesEnd_of_texts (hread : read source = .ok ts)
    (htexts : ∀ t ∈ ts, ∀ kind s, t.value = .quoted kind s → '\n' ∉ s.toList) :
    QuotesEnd source ts := by
  intro t ht kind s hkind before text after hcuts hline
  obtain ⟨-, slices, -, hslices⟩ := read_slices hread
  obtain ⟨i, hi, rfl⟩ := List.mem_iff_getElem.mp ht
  obtain ⟨hlen, hget⟩ := List.forall₂_iff_get.mp hslices
  simp only [List.get_eq_getElem] at hget
  obtain ⟨_, _, hcuts', hwritten⟩ := hget i hi (hlen ▸ hi)
  rw [hkind, ← hcuts.text_eq hcuts'] at hwritten
  obtain ⟨raw, hraw, hspells⟩ := hwritten
  refine htexts _ ht kind s hkind (hspells.mem_line ?_)
  rw [hraw] at hline
  cases kind <;> simpa [Quote.mark] using hline

/-- Wherever the text `cs` begins, it is covered by tokens with the outline of `ts`. -/
def Outlines (ts : Tokens) (cs : List Char) : Prop :=
  ∀ start, ∃ ts', Cover start cs ts' ∧ SameOutline ts ts'

theorem Outlines.cons (h : Outlines ts cs) (hne : w ≠ []) (hspell : Spelling t w cs) (span : Span) :
    Outlines (⟨t, span⟩ :: ts) (w ++ cs) := by
  intro start
  obtain ⟨ts', hcover, hsame⟩ := h (start + byteLength w)
  exact ⟨_, .cons hne hspell hcover, hsame.cons t span _⟩

theorem Outlines.trivia (h : Outlines ts cs) (hne : w ≠ []) (hspell : Spelling t' w cs)
    (hx : x.value.isTrivia) (ht : t'.isTrivia) : Outlines (x :: ts) (w ++ cs) := by
  intro start
  obtain ⟨ts', hcover, hsame⟩ := h (start + byteLength w)
  have hcover' := Cover.cons hne hspell hcover
  exact ⟨_, hcover', hsame.trivia hx ht⟩

theorem Outlines.more (h : Outlines (x :: ts) cs) (hne : w ≠ []) (hspell : Spelling t' w cs)
    (hx : x.value.isTrivia) (ht : t'.isTrivia) : Outlines (x :: ts) (w ++ cs) := by
  intro start
  obtain ⟨ts', hcover, hsame⟩ := h (start + byteLength w)
  have hcover' := Cover.cons hne hspell hcover
  exact ⟨_, hcover', hsame.more hx ht⟩

/-- The tokens of the text behind `before` where its lines end in another way. What has
been read so far may take in the first carriage return. -/
theorem Cover.respelled (h : Cover start cs ts) (hstart : start = byteLength before)
    (hquotes : QuotesEnd (String.ofList (before ++ cs)) ts) :
    Outlines ts (withReturns cs) ∧ ∀ r, cs = '\n' :: r → Outlines ts ('\n' :: withReturns r) := by
  induction h generalizing before with
  | nil => exact ⟨fun _ => ⟨[], .nil, fun _ _ => rfl⟩, nofun⟩
  | @cons w t rest start ts hne hspell hcover ih =>
    have hnext : start + byteLength w = byteLength (before ++ w) := by
      rw [byteLength_append, hstart]
    have hquotes' : QuotesEnd (String.ofList (before ++ w ++ rest)) ts := by
      rw [List.append_assoc]
      exact fun u hu => hquotes u (List.mem_cons_of_mem _ hu)
    have hquoted : ∀ kind s, t = .quoted kind s → '\n' ∉ w := fun kind s ht => by
      simpa using hquotes _ List.mem_cons_self kind s ht _ _ _ (.of_append hstart)
    obtain ⟨hrest, hline⟩ := ih hnext hquotes'
    have hno (hon : '\n' ∉ w) (r : List Char) : w ++ rest ≠ '\n' :: r := by
      obtain ⟨c, w, rfl⟩ := List.exists_cons_of_ne_nil hne
      rintro ⟨⟩
      exact hon List.mem_cons_self
    cases hspell.respelled hquoted with
    | newline ht hw =>
      -- The carriage return is white space of its own, unless the token in front took it in.
      subst ht hw
      have hbreak := hrest.cons hne .newline ⟨start, start + byteLength ['\n']⟩
      have hreturn : Spelling .blank ['\r'] ('\n' :: withReturns rest) :=
        .blank (List.cons_ne_nil _ []) (by simp; decide) (by simp; decide)
      refine ⟨hbreak.more (List.cons_ne_nil _ []) hreturn rfl rfl, fun r hr => ?_⟩
      cases hr
      exact hbreak
    | keeps hon hspell' =>
      refine ⟨?_, fun r hr => absurd hr (hno hon r)⟩
      rw [withReturns_append, withReturns_eq hon]
      exact hrest.cons hne hspell' _
    | @takes r t' hon ht hr ht' hspell' =>
      refine ⟨?_, fun r hr => absurd hr (hno hon r)⟩
      have hend : withReturns (w ++ rest) = w ++ ['\r'] ++ '\n' :: withReturns r := by
        rw [withReturns_append, withReturns_eq hon, hr, withReturns_line, List.append_assoc,
          List.singleton_append]
      rw [hend]
      exact (hline r hr).trivia (by simp) hspell' ht ht'

end Tokens

-- ---------------------------------------------------------------------------
-- Scenes
-- ---------------------------------------------------------------------------

/-- Tokens with one outline are read as sections that differ in their places alone. -/
theorem Section.ofTokens_sameOutline (h : Tokens.SameOutline s t) (hs : ofTokens s = .ok sections) :
    ∃ sections', ofTokens t = .ok sections' ∧
      sections'.map (·.unplaced) = sections.map (·.unplaced) := by
  have halike : Grammar.Alike none s t := h none false
  have hrun := halike.readSections
  rw [Grammar.ofTokens_ok.mp hs] at hrun
  generalize ht : readSections t = r at hrun
  cases hrun with
  | ok heq => exact ⟨_, Grammar.ofTokens_ok.mpr ht, heq.symm⟩

namespace Scene

theorem ofSections_unplaced {ss us : List Section}
    (h : us.map (·.unplaced) = ss.map (·.unplaced)) : (ofSections us).1 = (ofSections ss).1 ∧
      (ofSections us).2.map (·.moved nowhere) = (ofSections ss).2.map (·.moved nowhere) := by
  have hmoved : ofSections (us.map (·.moved nowhere)) = ofSections (ss.map (·.moved nowhere)) :=
    congrArg ofSections h
  rw [ofSections_moved, ofSections_moved] at hmoved
  exact Prod.mk.inj hmoved

def crlf (source : String) : String := String.ofList (withReturns source.toList)

/-- A scene is read the same where its lines end in another way; only the places in the
warnings differ. Carriage returns that the text has already do no harm. -/
theorem read_crlf (hread : read source = .ok (scene, warnings))
    (hquotes : ∀ ts, Tokens.read source = .ok ts → Tokens.QuotesEnd source ts) :
    ∃ warnings', read (crlf source) = .ok (scene, warnings') ∧
      warnings'.map (·.moved nowhere) = warnings.map (·.moved nowhere) := by
  obtain ⟨sections, hall, hmade⟩ := map_ok.mp hread
  obtain ⟨ts, hts, hsections⟩ := Grammar.readAll_ok.mp hall
  have hcover := Tokens.read_ok.mp hts
  have hends : Tokens.QuotesEnd (String.ofList ([] ++ source.toList)) ts := by
    simpa using hquotes ts hts
  obtain ⟨ts', hcover', hsame⟩ := (hcover.respelled rfl hends).1 0
  have hts' : Tokens.read (crlf source) = .ok ts' := by
    rw [Tokens.read_ok, crlf, String.toList_ofList]
    exact hcover'
  obtain ⟨sections', hsections', hplaces⟩ := Section.ofTokens_sameOutline hsame hsections
  obtain ⟨hscene, hwarnings⟩ := ofSections_unplaced hplaces
  rw [hmade] at hscene hwarnings
  refine ⟨(ofSections sections').2, ?_, hwarnings⟩
  exact map_ok.mpr ⟨sections', Grammar.readAll_ok.mpr ⟨ts', hts', hsections'⟩, Prod.ext hscene rfl⟩

def twoLines : String := "[node name=\"A\" type=\"T\"];\n[node name=\"B\" type=\"T\"]\n"

theorem read_crlf_two : ∃ scene warnings, read twoLines = .ok (scene, warnings) ∧
    (∀ ts, Tokens.read twoLines = .ok ts → Tokens.QuotesEnd twoLines ts) ∧
    ∃ warnings', read (crlf twoLines) = .ok (scene, warnings') ∧
      warnings'.map (·.moved nowhere) = warnings.map (·.moved nowhere) := by
  have hsome : (read twoLines).toOption.isSome := by decide +kernel
  have htexts : (Tokens.read twoLines).toOption.map (·.all fun t =>
      t.value.isTrivia || t.value.text.toList.all (· ≠ '\n')) = some true := by decide +kernel
  have hquotes : ∀ ts, Tokens.read twoLines = .ok ts → Tokens.QuotesEnd twoLines ts := by
    intro ts hts
    refine Tokens.quotesEnd_of_texts hts fun t ht kind s hkind hline => ?_
    rw [hts] at htexts
    have hall := List.all_eq_true.mp (Option.some.inj htexts) t ht
    simp only [hkind, Token.isTrivia, Bool.false_or, List.all_eq_true] at hall
    exact absurd (hall '\n' (by simp [Token.text, hline])) (by decide)
  cases hread : read twoLines with
  | error m => simp [hread, Except.toOption] at hsome
  | ok made => exact ⟨made.1, made.2, rfl, hquotes, read_crlf hread hquotes⟩

end Scene
end SceneDiagram
