import SceneDiagram.Proofs.Section.Reading

/-!
# How far a part reaches

A part of a file is read from a front of the tokens, and what stands behind that
front does not count, with one exception: behind a bare word the next token must
not turn it into a call. `PropertyAt.extent`, and what leads to it, says so of
values, entries and properties; a list ends with a mark of its own, and
`value_and_list_extent` has it without the exception.
-/

namespace SceneDiagram.Grammar

variable {ts ts₁ us rest : Tokens} {p : Punctuation}

-- ---------------------------------------------------------------------------
-- Fronts
-- ---------------------------------------------------------------------------

/-- Behind a word that `ts` follows, `us` may follow too: it opens no call that `ts`
does not open. -/
def Follows (ts us : Tokens) : Prop := ∀ t ∈ us.head?, OpensCall t → t ∈ ts.head?

theorem Follows.of_head (h : us.head? = ts.head?) : Follows ts us :=
  fun _ ht _ => h ▸ ht

theorem Follows.of_meek (h : ∀ t ∈ us.head?, ¬ OpensCall t) : Follows ts us :=
  fun t ht hc => absurd hc (h t ht)

theorem Follows.append (c : Tokens) (h : Follows ts us) : Follows (c ++ ts) (c ++ us) := by
  cases c with
  | nil => exact h
  | cons t c => exact .of_head rfl

theorem follows_cons (c : Tokens) (t : Spanned Token) (rest us : Tokens) :
    Follows (c ++ t :: rest) (c ++ t :: us) := .append c (.of_head rfl)

/-- The part `x` stands in a front of `ts`: it is read from there whatever follows,
as long as that opens no call. -/
def Extent (Reads : Tokens → α → Tokens → Prop) (ts : Tokens) (x : α) (rest : Tokens) : Prop :=
  ∃ c, c ≠ [] ∧ ts = c ++ rest ∧ ∀ us, Follows rest us → Reads (c ++ us) x us

def ListExtent (Item : Tokens → α → Tokens → Prop) (ts : Tokens) : Prop :=
  ∀ p xs close rest, ListAt Item p ts xs close rest →
    ∃ c, c ≠ [] ∧ ts = c ++ rest ∧ ∀ us, ListAt Item p (c ++ us) xs close us

theorem Trivia.extent (h : Trivia ts rest) :
    ∃ c, ts = c ++ rest ∧ ∀ us, Trivia (c ++ us) us := by
  induction h with
  | none => exact ⟨[], rfl, fun _ => .none⟩
  | skip ht _ ih =>
    obtain ⟨c, rfl, hc⟩ := ih
    exact ⟨_ :: c, rfl, fun us => .skip ht (hc us)⟩

theorem Extent.alone {Reads : Tokens → α → Tokens → Prop} {t : Spanned Token}
    (h : ∀ us, Follows rest us → Reads (t :: us) x us) : Extent Reads (t :: rest) x rest :=
  ⟨[t], List.cons_ne_nil _ _, rfl, h⟩

-- ---------------------------------------------------------------------------
-- Lists and entries
-- ---------------------------------------------------------------------------

theorem listExtent_step {Item : Tokens → α → Tokens → Prop}
    (items : ∀ ts₁ : Tokens, ts₁.length ≤ ts.length → ∀ x rest, Item ts₁ x rest →
      Extent Item ts₁ x rest)
    (more : ∀ ts₁ : Tokens, ts₁.length < ts.length → ListExtent Item ts₁) :
    ListExtent Item ts := by
  intro p xs close rest h
  cases h with
  | nil h =>
    obtain ⟨c, rfl, hc⟩ := h.extent
    refine ⟨c ++ [mark p close], by simp, by simp, fun us => .nil ?_⟩
    rw [List.append_assoc]
    exact hc _
  | last ht hitem hclose =>
    obtain ⟨c, rfl, hc⟩ := ht.extent
    obtain ⟨d, hd, rfl, hx⟩ := items _ (by simp) _ _ hitem
    obtain ⟨e, rfl, he⟩ := hclose.extent
    refine ⟨c ++ d ++ e ++ [mark p close], by simp, by simp, fun us => ?_⟩
    simp only [List.append_assoc, List.singleton_append]
    exact .last (hc _) (hx _ (follows_cons e _ _ _)) (he _)
  | @cons _ _ _ _ comma _ _ _ _ _ ht hitem hcomma hitems =>
    obtain ⟨c, rfl, hc⟩ := ht.extent
    obtain ⟨d, hd, rfl, hx⟩ := items _ (by simp) _ _ hitem
    obtain ⟨e, rfl, he⟩ := hcomma.extent
    obtain ⟨f, -, rfl, hf⟩ := more _ (by simp only [List.length_append, List.length_cons]; omega)
      _ _ _ _ hitems
    refine ⟨c ++ d ++ e ++ mark .comma comma :: f, by simp, by simp, fun us => ?_⟩
    simp only [List.append_assoc, List.cons_append]
    exact .cons (hc _) (hx _ (follows_cons e _ _ _)) (he _) (hf us)

theorem entryExtent_step
    (values : ∀ ts₁ : Tokens, ts₁.length ≤ ts.length → ∀ v rest, ValueAt ts₁ v rest →
      Extent ValueAt ts₁ v rest)
    (h : EntryAt ts e rest) : Extent EntryAt ts e rest := by
  obtain @⟨_, key, _, colon, _, _, value, _, hkey, hcolon, ht, hvalue⟩ := h
  obtain ⟨c, hc, rfl, hk⟩ := values _ (Nat.le_refl _) _ _ hkey
  obtain ⟨d, rfl, hd⟩ := hcolon.extent
  obtain ⟨e, rfl, he⟩ := ht.extent
  obtain ⟨f, -, rfl, hv⟩ := values _ (by simp only [List.length_append, List.length_cons]; omega)
    _ _ hvalue
  refine ⟨c ++ d ++ mark .colon colon :: (e ++ f), by simp, by simp, fun us hus => ?_⟩
  simp only [List.append_assoc, List.cons_append]
  exact .mk (hk _ (follows_cons d _ _ _)) (hd _) (he _) (hv us hus)

-- ---------------------------------------------------------------------------
-- Values
-- ---------------------------------------------------------------------------

theorem valueExtent_step
    (items : ∀ ts₁ : Tokens, ts₁.length < ts.length → ListExtent ValueAt ts₁)
    (entries : ∀ ts₁ : Tokens, ts₁.length < ts.length → ListExtent EntryAt ts₁)
    (h : ValueAt ts v rest) : Extent ValueAt ts v rest := by
  cases h with
  | quoted => exact .alone fun us _ => .quoted
  | number => exact .alone fun us _ => .number
  | word hw => exact .alone fun us hus => .word fun t ht hc => hw t (hus t ht hc) hc
  | @call _ _ _ _ w paren hn hargs =>
    obtain ⟨c, -, rfl, hc⟩ := items _ (by simp only [List.length_cons]; omega) _ _ _ _ hargs
    exact ⟨word w :: mark .leftParen paren :: c, by simp, by simp, fun us _ => .call hn (hc us)⟩
  | @typedCall _ _ _ paren _ _ _ _ w opening htypes hargs =>
    obtain ⟨c, -, rfl, hc⟩ := items _ (by simp only [List.length_cons]; omega) _ _ _ _ htypes
    obtain ⟨d, -, rfl, hd⟩ :=
      items _ (by simp only [List.length_append, List.length_cons]; omega) _ _ _ _ hargs
    refine ⟨word w :: mark .leftBracket opening :: (c ++ mark .leftParen paren :: d),
      by simp, by simp, fun us _ => ?_⟩
    simp only [List.append_assoc, List.cons_append]
    exact .typedCall (hc _) (hd us)
  | @bareObject _ cls _ close _ w paren hn hcls hclose =>
    obtain ⟨c, rfl, hc⟩ := hcls.extent
    obtain ⟨d, rfl, hd⟩ := hclose.extent
    refine ⟨word w :: mark .leftParen paren :: (c ++ word cls :: (d ++ [mark .rightParen close])),
      by simp, by simp, fun us _ => ?_⟩
    simp only [List.append_assoc, List.cons_append, List.nil_append]
    exact .bareObject hn (hc _) (hd _)
  | @object _ cls _ comma _ _ _ _ w paren hn hcls hcomma hproperties =>
    obtain ⟨c, rfl, hc⟩ := hcls.extent
    obtain ⟨d, rfl, hd⟩ := hcomma.extent
    obtain ⟨e, -, rfl, he⟩ :=
      entries _ (by simp only [List.length_append, List.length_cons]; omega) _ _ _ _ hproperties
    refine ⟨word w :: mark .leftParen paren :: (c ++ word cls :: (d ++ mark .comma comma :: e)),
      by simp, by simp, fun us _ => ?_⟩
    simp only [List.append_assoc, List.cons_append]
    exact .object hn (hc _) (hd _) (he us)
  | @array _ _ _ _ span hitems =>
    obtain ⟨c, -, rfl, hc⟩ := items _ (by simp) _ _ _ _ hitems
    exact ⟨mark .leftBracket span :: c, by simp, by simp, fun us _ => .array (hc us)⟩
  | @dictionary _ _ _ _ span hentries =>
    obtain ⟨c, -, rfl, hc⟩ := entries _ (by simp) _ _ _ _ hentries
    exact ⟨mark .leftBrace span :: c, by simp, by simp, fun us _ => .dictionary (hc us)⟩

theorem value_and_list_extent (ts : Tokens) :
    (∀ v rest, ValueAt ts v rest → Extent ValueAt ts v rest) ∧
      ListExtent ValueAt ts ∧ ListExtent EntryAt ts :=
  values_and_lists (V := fun ts => ∀ v rest, ValueAt ts v rest → Extent ValueAt ts v rest)
    (L := fun ts => ListExtent ValueAt ts ∧ ListExtent EntryAt ts)
    (fun _ ih _ _ =>
      valueExtent_step (fun ts₁ h => (ih ts₁ h).1) fun ts₁ h => (ih ts₁ h).2)
    (fun _ hv ih => ⟨listExtent_step hv fun ts₁ h => (ih ts₁ h).1,
      listExtent_step
        (fun _ h _ _ => entryExtent_step fun ts₂ h₂ => hv ts₂ (Nat.le_trans h₂ h))
        fun ts₁ h => (ih ts₁ h).2⟩) ts

theorem ValueAt.extent (h : ValueAt ts v rest) : Extent ValueAt ts v rest :=
  (value_and_list_extent ts).1 v rest h

-- ---------------------------------------------------------------------------
-- Properties
-- ---------------------------------------------------------------------------

theorem PropertyAt.extent {p : Property} (h : PropertyAt ts p rest) :
    Extent PropertyAt ts p rest := by
  obtain @⟨_, equals, _, _, v, _, key, hequals, ht, hvalue⟩ := h
  obtain ⟨c, rfl, hc⟩ := hequals.extent
  obtain ⟨d, rfl, hd⟩ := ht.extent
  obtain ⟨e, -, rfl, he⟩ := hvalue.extent
  refine ⟨word key :: (c ++ mark .equals equals :: (d ++ e)), by simp, by simp,
    fun us hus => ?_⟩
  simp only [List.append_assoc, List.cons_append]
  exact .mk (hc _) (hd _) (he us hus)

-- ---------------------------------------------------------------------------
-- What is behind a part
-- ---------------------------------------------------------------------------

theorem Trivia.suffix (h : Trivia ts rest) : rest <:+ ts := by
  obtain ⟨c, rfl, -⟩ := h.extent
  exact List.suffix_append c rest

theorem Extent.suffix {Reads : Tokens → α → Tokens → Prop} (h : Extent Reads ts x rest) :
    rest <:+ ts := by
  obtain ⟨c, -, rfl, -⟩ := h
  exact List.suffix_append c rest

theorem ListAt.closed {Item : Tokens → α → Tokens → Prop}
    (items : ∀ ts x rest, Item ts x rest → rest <:+ ts) (h : ListAt Item p ts xs close rest) :
    mark p close :: rest <:+ ts := by
  induction h with
  | nil h => exact h.suffix
  | last ht hitem hclose => exact hclose.suffix.trans ((items _ _ _ hitem).trans ht.suffix)
  | cons ht hitem hcomma _ ih =>
    exact (ih.trans (List.suffix_cons _ _)).trans
      (hcomma.suffix.trans ((items _ _ _ hitem).trans ht.suffix))

theorem ValueAt.suffix (h : ValueAt ts v rest) : rest <:+ ts := h.extent.suffix

theorem PropertiesAt.suffix (h : PropertiesAt ts ps rest) : rest <:+ ts := by
  induction h with
  | nil => exact List.suffix_rfl
  | cons ht hp _ ih => exact ih.trans (hp.extent.suffix.trans ht.suffix)

end SceneDiagram.Grammar
