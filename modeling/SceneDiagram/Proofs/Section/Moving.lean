import SceneDiagram.Proofs.Section.Layout

/-!
# Moving a file

`FileOf.moved`: where the tokens of a file are moved so that the place of a whole is
still made up of the places of its parts, the same sections are read, moved in the
same way.
-/

namespace SceneDiagram

def Tokens.moved (f : Span → Span) (ts : Tokens) : Tokens := ts.map fun t => ⟨t.value, f t.span⟩

def Spanned.moved (f : Span → Span) (v : Spanned Value) : Spanned Value :=
  ⟨v.value.moved f, f v.span⟩

/-- What is made up of two places is moved with them. -/
def KeepsUnion (f : Span → Span) : Prop := ∀ s t : Span, f (s.union t) = (f s).union (f t)

namespace Grammar

variable {f : Span → Span} {ts rest : Tokens}

theorem movedItems_cons (v : Spanned Value) (vs : List (Spanned Value)) :
    Value.movedItems f (v :: vs) = v.moved f :: Value.movedItems f vs := by
  cases v
  rw [Value.movedItems, Spanned.moved]

theorem movedEntries_cons (e : Spanned Value × Spanned Value)
    (es : List (Spanned Value × Spanned Value)) :
    Value.movedEntries f (e :: es) = (e.1.moved f, e.2.moved f) :: Value.movedEntries f es := by
  obtain ⟨⟨k, p⟩, ⟨v, q⟩⟩ := e
  rw [Value.movedEntries, Spanned.moved, Spanned.moved]

theorem moved_ofWord (s : String) : (Value.ofWord s).moved f = Value.ofWord s := by
  unfold Value.ofWord
  repeat' split
  all_goals simp only [Value.moved]

theorem Trivia.moved (h : Trivia ts rest) : Trivia (ts.moved f) (rest.moved f) := by
  induction h with
  | none => exact .none
  | skip ht _ ih => exact .skip ht ih

theorem Trivia.moved_word (h : Trivia ts (word w :: rest)) :
    Trivia (ts.moved f) (word ⟨w.value, f w.span⟩ :: rest.moved f) := h.moved

/-- A value is read the same wherever it stands; the cases are those of its derivation. -/
theorem ValueAt.moved (hf : KeepsUnion f) (h : ValueAt ts v rest) :
    ValueAt (ts.moved f) (v.moved f) (rest.moved f) := by
  -- Values, entries and the lists of both are derived from each other, so each has its motive.
  refine @ValueAt.rec
    (fun ts v rest _ => ValueAt (ts.moved f) (v.moved f) (rest.moved f))
    (fun ts e rest _ => EntryAt (ts.moved f) (e.1.moved f, e.2.moved f) (rest.moved f))
    (fun p ts xs close rest _ =>
      ListAt ValueAt p (ts.moved f) (Value.movedItems f xs) (f close) (rest.moved f))
    (fun p ts es close rest _ =>
      ListAt EntryAt p (ts.moved f) (Value.movedEntries f es) (f close) (rest.moved f))
    ?quoted ?number ?word ?call ?typedCall ?bareObject ?object ?array ?dictionary ?entry
    ?noItems ?lastItem ?items ?noEntries ?lastEntry ?entries ts v rest h
  case quoted =>
    intro kind s span rest
    simp only [Spanned.moved, Value.moved]
    exact .quoted
  case number =>
    intro x span rest
    simp only [Spanned.moved, Value.moved]
    exact .number
  case word =>
    intro w rest hw
    rw [Spanned.moved, moved_ofWord]
    have hmoved : ∀ t ∈ (rest.map fun t => ⟨t.value, f t.span⟩).head?, ¬ OpensCall t := by
      intro t ht hc
      rw [List.head?_map] at ht
      obtain ⟨u, hu, rfl⟩ := Option.map_eq_some_iff.mp ht
      exact hw u hu hc
    exact .word (w := ⟨w.value, f w.span⟩) hmoved
  case call =>
    intro ts args close rest w paren hn _ ih
    simp only [Spanned.moved, Value.moved, hf _ _, Value.movedItems]
    exact .call (w := ⟨w.value, f w.span⟩) hn ih
  case typedCall =>
    intro ts typeArgs bracket paren ts₁ args close rest w opening _ _ iht iha
    simp only [Spanned.moved, Value.moved, hf _ _]
    exact .typedCall (w := ⟨w.value, f w.span⟩) iht iha
  case bareObject =>
    intro ts cls ts₁ close rest w paren hn hcls hclose
    simp only [Spanned.moved, Value.moved, hf _ _, Value.movedEntries]
    exact @ValueAt.bareObject _ ⟨cls.value, f cls.span⟩ _ _ _ ⟨w.value, f w.span⟩ _ hn hcls.moved
      hclose.moved
  case object =>
    intro ts cls ts₁ comma ts₂ properties close rest w paren hn hcls hcomma _ ih
    simp only [Spanned.moved, Value.moved, hf _ _]
    exact @ValueAt.object _ ⟨cls.value, f cls.span⟩ _ _ _ _ _ _ ⟨w.value, f w.span⟩ _ hn hcls.moved
      hcomma.moved ih
  case array =>
    intro ts items close rest span _ ih
    simp only [Spanned.moved, Value.moved, hf _ _]
    exact .array ih
  case dictionary =>
    intro ts entries close rest span _ ih
    simp only [Spanned.moved, Value.moved, hf _ _]
    exact .dictionary ih
  case entry => exact fun _ hcolon ht _ ihk ihv => .mk ihk hcolon.moved ht.moved ihv
  case noItems | noEntries => exact fun h => .nil h.moved
  case lastItem =>
    intro ts ts₁ x ts₂ p close rest ht _ hclose ih
    rw [movedItems_cons, Value.movedItems]
    exact .last ht.moved ih hclose.moved
  case items =>
    intro ts ts₁ x ts₂ comma ts₃ p xs close rest ht _ hcomma _ ih ihs
    rw [movedItems_cons]
    exact .cons ht.moved ih hcomma.moved ihs
  case lastEntry =>
    intro ts ts₁ e ts₂ p close rest ht _ hclose ih
    rw [movedEntries_cons, Value.movedEntries]
    exact .last ht.moved ih hclose.moved
  case entries =>
    intro ts ts₁ e ts₂ comma ts₃ p es close rest ht _ hcomma _ ih ihs
    rw [movedEntries_cons]
    exact .cons ht.moved ih hcomma.moved ihs

-- ---------------------------------------------------------------------------
-- Sections
-- ---------------------------------------------------------------------------

theorem PropertyAt.moved {p : Property} (hf : KeepsUnion f) (h : PropertyAt ts p rest) :
    PropertyAt (ts.moved f) (p.moved f) (rest.moved f) := by
  obtain @⟨ts, _, _, _, v, _, key, hequals, ht, hv⟩ := h
  change PropertyAt (word ⟨key.value, f key.span⟩ :: Tokens.moved f ts) ⟨_, v.moved f⟩ _
  exact .mk hequals.moved ht.moved (hv.moved hf)

theorem PropertiesAt.moved (hf : KeepsUnion f) (h : PropertiesAt ts ps rest) :
    PropertiesAt (ts.moved f) (ps.map (·.moved f)) (rest.moved f) := by
  induction h with
  | nil => exact .nil
  | cons ht hp _ ih => exact .cons ht.moved (hp.moved hf) ih

theorem SectionAt.moved (hf : KeepsUnion f) (h : SectionAt ts s rest) :
    SectionAt (ts.moved f) (s.moved f) (rest.moved f) := by
  obtain ⟨htag, hattributes, hclosing, hproperties⟩ := h
  exact .mk htag.moved_word (hattributes.moved hf) hclosing.moved (hproperties.moved hf)

theorem SectionsAt.moved (hf : KeepsUnion f) (h : SectionsAt ts ss rest) :
    SectionsAt (ts.moved f) (ss.map (·.moved f)) (rest.moved f) := by
  induction h with
  | nil => exact .nil
  | cons hs ht _ ih => exact .cons (hs.moved hf) ht.moved ih

theorem FileOf.moved (hf : KeepsUnion f) (h : FileOf ts ss) :
    FileOf (ts.moved f) (ss.map (·.moved f)) := by
  obtain ⟨ts₁, ht, hss⟩ := h
  exact ⟨_, ht.moved, hss.moved hf⟩

end Grammar
end SceneDiagram
