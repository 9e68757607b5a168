import SceneDiagram.Proofs.Section.Extent

/-!
# Parts one behind the other

`InRow Reads ts xs rest` says that the parts `xs` are read from the tokens one behind the
other, each from an end of what is behind the one before. The values in a value stand in a
row between its first token and the mark that closes it (`ValueAt.row`), and the words and
values of a file stand in a row (`SectionsAt.row`), whatever is between them.
-/

namespace SceneDiagram

def Value.parts : Value → List (Spanned Value)
  | .call _ typeArgs args => typeArgs ++ args
  | .object _ entries | .dictionary entries => entries.flatMap fun e => [e.1, e.2]
  | .array items => items
  | _ => []

/-- A value stands in another at any depth, or is that value. -/
inductive Value.PartOf : Spanned Value → Spanned Value → Prop
  | self : PartOf v v
  | inside : p ∈ v.value.parts → PartOf w p → PartOf w v

theorem Value.parts_ofWord (s : String) : (ofWord s).parts = [] := by
  unfold ofWord
  repeat' split
  all_goals rfl

inductive Section.Part
  | word (w : Spanned String)
  | value (v : Spanned Value)

def Section.Part.span : Section.Part → Span
  | .word w => w.span
  | .value v => v.span

def Property.parts (p : Property) : List Section.Part := [.word p.key, .value p.value]

def Section.parts (s : Section) : List Part :=
  .word s.tag :: (s.attributes ++ s.properties).flatMap Property.parts

namespace Grammar

-- ---------------------------------------------------------------------------
-- Rows
-- ---------------------------------------------------------------------------

/-- Parts read from the tokens one behind the other; whatever is between them is skipped. -/
inductive InRow (Reads : Tokens → α → Tokens → Prop) : Tokens → List α → Tokens → Prop
  | nil : rest <:+ ts → InRow Reads ts [] rest
  | cons : us <:+ ts → Reads us x us₁ → InRow Reads us₁ xs rest → InRow Reads ts (x :: xs) rest

/-- A word by itself, or a value. -/
inductive PartAt : Tokens → Section.Part → Tokens → Prop
  | word : PartAt (Grammar.word w :: rest) (.word w) rest
  | value : ValueAt ts v rest → PartAt ts (.value v) rest

variable {ts us rest : Tokens} {Reads : Tokens → α → Tokens → Prop} {xs ys : List α}

namespace InRow

theorem of_suffix (h : InRow Reads us xs rest) (hus : us <:+ ts) : InRow Reads ts xs rest := by
  cases h with
  | nil hrest => exact .nil (hrest.trans hus)
  | cons hsub hx hxs => exact .cons (hsub.trans hus) hx hxs

theorem append (h : InRow Reads ts xs us) (h' : InRow Reads us ys rest) :
    InRow Reads ts (xs ++ ys) rest := by
  induction h with
  | nil hus => exact h'.of_suffix hus
  | cons hsub hx _ ih => exact .cons hsub hx (ih h')

theorem before (h : InRow Reads ts xs us) (hrest : rest <:+ us) : InRow Reads ts xs rest := by
  simpa using h.append (.nil hrest)

theorem single (h : Reads ts x rest) : InRow Reads ts [x] rest :=
  .cons List.suffix_rfl h (.nil List.suffix_rfl)

theorem reads (hreads : ∀ ts x rest, Reads ts x rest → rest <:+ ts) (h : InRow Reads ts xs rest) :
    ∀ x ∈ xs, ∃ us us₁, us <:+ ts ∧ Reads us x us₁ := by
  induction h with
  | nil => exact nofun
  | cons hsub hx _ ih =>
    refine List.forall_mem_cons.mpr ⟨⟨_, _, hsub, hx⟩, fun y hy => ?_⟩
    obtain ⟨us, us₁, hus, hreads'⟩ := ih y hy
    exact ⟨us, us₁, hus.trans ((hreads _ _ _ hx).trans hsub), hreads'⟩

theorem suffix (hreads : ∀ ts x rest, Reads ts x rest → rest <:+ ts)
    (h : InRow Reads ts xs rest) : rest <:+ ts := by
  induction h with
  | nil hrest => exact hrest
  | cons hsub hx _ ih => exact ih.trans ((hreads _ _ _ hx).trans hsub)

end InRow

-- ---------------------------------------------------------------------------
-- Values in a value
-- ---------------------------------------------------------------------------

theorem ListAt.row {Item : Tokens → α → Tokens → Prop} {values : α → List (Spanned Value)}
    (items : ∀ ts x rest, Item ts x rest → InRow ValueAt ts (values x) rest)
    (h : ListAt Item p ts xs close rest) :
    InRow ValueAt ts (xs.flatMap values) (mark p close :: rest) := by
  induction h with
  | nil h => exact .nil h.suffix
  | last ht hitem hclose =>
    rw [List.flatMap_singleton]
    exact ((items _ _ _ hitem).of_suffix ht.suffix).before hclose.suffix
  | cons ht hitem hcomma _ ih =>
    rw [List.flatMap_cons]
    have hmore := ih.of_suffix ((List.suffix_cons _ _).trans hcomma.suffix)
    exact ((items _ _ _ hitem).of_suffix ht.suffix).append hmore

theorem EntryAt.row (h : EntryAt ts e rest) : InRow ValueAt ts [e.1, e.2] rest := by
  obtain ⟨hkey, hcolon, ht, hvalue⟩ := h
  have hbehind := ht.suffix.trans ((List.suffix_cons _ _).trans hcolon.suffix)
  exact .cons List.suffix_rfl hkey (.cons hbehind hvalue (.nil List.suffix_rfl))

theorem ListAt.values_row (h : ListAt ValueAt p ts vs close rest) :
    InRow ValueAt ts vs (mark p close :: rest) := by
  have hrow : InRow ValueAt ts (vs.flatMap ([·])) (mark p close :: rest) :=
    h.row fun _ _ _ => InRow.single
  simpa using hrow

theorem ListAt.entries_row (h : ListAt EntryAt p ts es close rest) :
    InRow ValueAt ts (es.flatMap fun e => [e.1, e.2]) (mark p close :: rest) :=
  h.row fun _ _ _ => EntryAt.row

/-- A value is one token, or goes from its first token to the one that closes it, and what
is in it stands in a row between the two. -/
theorem ValueAt.row (h : ValueAt ts v rest) : ∃ t us, ts = t :: us ∧
    (v.span = t.span ∧ v.value.parts = [] ∧ us = rest ∨
      ∃ close, v.span = t.span.union close.span ∧
        InRow ValueAt us v.value.parts (close :: rest)) := by
  cases h with
  | quoted | number => exact ⟨_, _, rfl, .inl ⟨rfl, rfl, rfl⟩⟩
  | word => exact ⟨_, _, rfl, .inl ⟨rfl, Value.parts_ofWord _, rfl⟩⟩
  | call _ hargs =>
    exact ⟨_, _, rfl, .inr ⟨_, rfl, hargs.values_row.of_suffix (List.suffix_cons _ _)⟩⟩
  | typedCall htypes hargs =>
    have hrow := htypes.values_row.append (hargs.values_row.of_suffix
      ((List.suffix_cons _ _).trans (List.suffix_cons _ _)))
    exact ⟨_, _, rfl, .inr ⟨_, rfl, hrow.of_suffix (List.suffix_cons _ _)⟩⟩
  | bareObject _ hcls hclose =>
    have hbehind := hclose.suffix.trans ((List.suffix_cons _ _).trans hcls.suffix)
    exact ⟨_, _, rfl, .inr ⟨_, rfl, .nil (hbehind.trans (List.suffix_cons _ _))⟩⟩
  | object _ hcls hcomma hproperties =>
    have hclass := (List.suffix_cons _ _).trans hcls.suffix
    have hbehind := (List.suffix_cons _ _).trans (hcomma.suffix.trans hclass)
    have hrow := hproperties.entries_row.of_suffix hbehind
    exact ⟨_, _, rfl, .inr ⟨_, rfl, hrow.of_suffix (List.suffix_cons _ _)⟩⟩
  | array hitems => exact ⟨_, _, rfl, .inr ⟨_, rfl, hitems.values_row⟩⟩
  | dictionary hentries => exact ⟨_, _, rfl, .inr ⟨_, rfl, hentries.entries_row⟩⟩

theorem ValueAt.part (h : ValueAt ts v rest) (hpart : Value.PartOf w v) :
    ∃ us us₁, us <:+ ts ∧ ValueAt us w us₁ := by
  induction hpart generalizing ts rest with
  | self => exact ⟨ts, rest, List.suffix_rfl, h⟩
  | inside hp _ ih =>
    obtain ⟨t, us, rfl, ⟨-, hnone, -⟩ | ⟨close, -, hrow⟩⟩ := h.row
    · rw [hnone] at hp
      cases hp
    · obtain ⟨us₁, us₂, hus₁, hvalue⟩ := hrow.reads (fun _ _ _ => ValueAt.suffix) _ hp
      obtain ⟨us₃, us₄, hus₃, hw⟩ := ih hvalue
      exact ⟨us₃, us₄, hus₃.trans (hus₁.trans (List.suffix_cons t us)), hw⟩

-- ---------------------------------------------------------------------------
-- Parts of a file
-- ---------------------------------------------------------------------------

theorem PartAt.suffix (h : PartAt ts x rest) : rest <:+ ts := by
  cases h with
  | word => exact List.suffix_cons _ _
  | value h => exact h.suffix

theorem PropertyAt.row {p : Property} (h : PropertyAt ts p rest) :
    InRow PartAt ts p.parts rest := by
  obtain ⟨hequals, ht, hvalue⟩ := h
  have hbehind := ht.suffix.trans ((List.suffix_cons _ _).trans hequals.suffix)
  exact .cons List.suffix_rfl .word (.cons hbehind (.value hvalue) (.nil List.suffix_rfl))

theorem PropertiesAt.row (h : PropertiesAt ts ps rest) :
    InRow PartAt ts (ps.flatMap Property.parts) rest := by
  induction h with
  | nil => exact .nil List.suffix_rfl
  | cons ht hp _ ih => exact (hp.row.append ih).of_suffix ht.suffix

theorem SectionAt.row (h : SectionAt ts s rest) : InRow PartAt ts s.parts rest := by
  obtain ⟨htag, hattributes, hclosing, hproperties⟩ := h
  have hlines := hproperties.row.of_suffix ((List.suffix_cons _ _).trans hclosing.suffix)
  have hall := hattributes.row.append hlines
  rw [← List.flatMap_append] at hall
  exact .cons (htag.suffix.trans (List.suffix_cons _ _)) .word hall

theorem SectionsAt.row (h : SectionsAt ts ss rest) :
    InRow PartAt ts (ss.flatMap Section.parts) rest := by
  induction h with
  | nil => exact .nil List.suffix_rfl
  | cons hs ht _ ih => exact hs.row.append (ih.of_suffix ht.suffix)

/-- All words and values of a file stand in a row. -/
theorem row_of_ofTokens (h : Section.ofTokens ts = .ok sections) :
    InRow PartAt ts (sections.flatMap Section.parts) [] := by
  obtain ⟨us, ht, hsections⟩ := readSections_ok.mp (ofTokens_ok.mp h)
  exact hsections.row.of_suffix ht.suffix

end Grammar
end SceneDiagram
