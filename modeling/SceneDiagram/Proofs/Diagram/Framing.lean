import SceneDiagram.Proofs.Diagram.LinkTarget
import SceneDiagram.Proofs.Generation

/-!
# The frame of a document

`framed_documentText`: while no name, path or label breaks its line, a document stands
between its two markers, and each line that opens a class or a package is closed at its own
indentation, behind lines that are a tab deeper. `Nested` is how the lines of blocks lie in
one another, and `Nested.role` finds the block around a line again. Names are written as
they were decoded, though, so one that holds a line break may end the document early
(`Generation.not_run_framed`).
-/

namespace SceneDiagram

open Text

-- ---------------------------------------------------------------------------
-- Lines
-- ---------------------------------------------------------------------------

namespace Text

def Unbroken (s : String) : Prop := '\n' ∉ s.toList

instance (s : String) : Decidable (Unbroken s) := inferInstanceAs (Decidable ('\n' ∉ s.toList))

def tabs (depth : Nat) : String := .ofList (List.replicate depth '\t')

def indentation (line : String) : Nat := (line.toList.takeWhile (· = '\t')).length

variable {s t : String} {depth : Nat}

@[simp] theorem unbroken_append : Unbroken (s ++ t) ↔ Unbroken s ∧ Unbroken t := by
  simp [Unbroken, not_or]

theorem unbroken_tabs (depth : Nat) : Unbroken (tabs depth) := by simp [Unbroken, tabs]

theorem unbroken_toString (n : Nat) : Unbroken (toString n) := by
  intro h
  rw [Nat.toString_eq_repr, Nat.toList_repr] at h
  exact absurd (Nat.isDigit_of_mem_toDigits (by decide) (by decide) h) (by decide)

theorem unbroken_elim {o : Option α} {f : α → String} (h : ∀ a ∈ o, Unbroken (f a)) :
    Unbroken (o.elim "" f) := by
  cases o with
  | none => exact List.not_mem_nil
  | some a => exact h a rfl

theorem getLast?_append (s : String) (h : t.toList.getLast? = some c) :
    (s ++ t).toList.getLast? = some c := by
  rw [String.toList_append, List.getLast?_append, h, Option.some_or]

theorem tabs_zero : tabs 0 = "" := rfl

theorem tabs_succ (depth : Nat) : tabs (depth + 1) = tabs depth ++ "\t" :=
  String.toList_inj.mp (by simp [tabs, List.replicate_succ'])

theorem indentation_tabs_append (depth : Nat) (s : String) :
    indentation (tabs depth ++ s) = depth + indentation s := by
  rw [indentation, String.toList_append, tabs, String.toList_ofList,
    List.takeWhile_append_of_pos fun c hc => by simp [List.eq_of_mem_replicate hc],
    List.length_append, List.length_replicate, indentation]

end Text

-- ---------------------------------------------------------------------------
-- Texts
-- ---------------------------------------------------------------------------

def Link.texts (l : Link) : List String := l.target :: l.label.toList

def MemberLine.texts (m : MemberLine) : List String := m.content :: m.child.elim [] Link.texts

def ClassBlock.texts (c : ClassBlock) : List String :=
  c.name :: (c.link.texts ++ c.sections.flatten.flatMap MemberLine.texts)

def Relation.texts (r : Relation) : List String := r.source :: r.target :: r.member.toList

/-- The names, paths and labels that are written into a block, without what is inside a
package. -/
def Block.texts : Block → List String
  | .classBlock c => c.texts
  | .package name link _ => name :: link.texts
  | .relation r => r.texts

def Block.opening? : Block → Option String
  | .classBlock c => some c.opening
  | .package name link _ => some ("package " ++ name ++ " " ++ link.text ++ " \x7b")
  | .relation _ => none

def Block.plain : Block → List String
  | .classBlock c => c.body
  | .package .. => []
  | .relation r => [r.text]

theorem Link.unbroken_text {l : Link} (h : ∀ s ∈ l.texts, Unbroken s) : Unbroken l.text := by
  obtain ⟨target, line, label⟩ := l
  simp only [texts, List.forall_mem_cons] at h
  obtain ⟨htarget, hlabel⟩ := h
  have hline : Unbroken (line.elim "" fun n => ":" ++ toString n) :=
    unbroken_elim fun n _ => unbroken_append.mpr ⟨by decide, unbroken_toString n⟩
  have hshown : Unbroken (label.elim "" fun s => " " ++ s) :=
    unbroken_elim fun s hs =>
      unbroken_append.mpr ⟨by decide, hlabel s (Option.mem_toList.mpr hs)⟩
  simp only [text, unbroken_append]
  exact ⟨⟨⟨⟨by decide, htarget⟩, hline⟩, hshown⟩, by decide⟩

theorem MemberLine.unbroken_text {m : MemberLine} (h : ∀ s ∈ m.texts, Unbroken s) :
    Unbroken m.text := by
  obtain ⟨isPublic, content, child⟩ := m
  simp only [texts, List.forall_mem_cons] at h
  obtain ⟨hcontent, hchild⟩ := h
  have hlead : Unbroken (if isPublic then "+ " else "") := by split <;> decide
  have hlink : Unbroken (child.elim "" fun l => " - " ++ l.text) :=
    unbroken_elim fun l hl => by
      rw [Option.mem_def.mp hl] at hchild
      exact unbroken_append.mpr ⟨by decide, Link.unbroken_text hchild⟩
  simp only [text, unbroken_append]
  exact ⟨⟨hlead, hcontent⟩, hlink⟩

theorem ClassBlock.unbroken_of_mem_body {c : ClassBlock} (h : ∀ s ∈ c.texts, Unbroken s)
    (ht : t ∈ c.body) : Unbroken t := by
  simp only [texts, List.forall_mem_cons, List.forall_mem_append] at h
  obtain ⟨-, hlink, hmembers⟩ := h
  rcases List.mem_cons.mp ht with rfl | ht
  · exact Link.unbroken_text hlink
  · obtain ⟨lines, hlines, ht⟩ := List.mem_flatMap.mp ht
    rcases List.mem_cons.mp ht with rfl | ht
    · decide
    · obtain ⟨m, hm, rfl⟩ := List.mem_map.mp ht
      have hmem := List.mem_flatten.mpr ⟨lines, (List.mem_filter.mp hlines).1, hm⟩
      exact MemberLine.unbroken_text fun s hs =>
        hmembers s (List.mem_flatMap.mpr ⟨m, hmem, hs⟩)

theorem Relation.unbroken_text {r : Relation} (h : ∀ s ∈ r.texts, Unbroken s) :
    Unbroken r.text := by
  obtain ⟨source, member, target, extended⟩ := r
  simp only [texts, List.forall_mem_cons] at h
  obtain ⟨hsource, htarget, hmember⟩ := h
  have hlabel : Unbroken (member.elim "" fun m => "::" ++ m) :=
    unbroken_elim fun m hm =>
      unbroken_append.mpr ⟨by decide, hmember m (Option.mem_toList.mpr hm)⟩
  have harrow : Unbroken (if extended then " ---> " else " --> ") := by split <;> decide
  simp only [text, unbroken_append]
  exact ⟨⟨⟨hsource, hlabel⟩, harrow⟩, htarget⟩

namespace Block

variable {b : Block}

theorem unbroken_opening (h : ∀ s ∈ b.texts, Unbroken s) (ho : b.opening? = some t) :
    Unbroken t := by
  cases b with
  | classBlock c =>
    cases ho
    have hspot : Unbroken (if c.spotted then " << (S,black) >>" else "") := by split <;> decide
    simp only [ClassBlock.opening, unbroken_append]
    exact ⟨⟨⟨by decide, h c.name List.mem_cons_self⟩, hspot⟩, by decide⟩
  | package name link body =>
    cases ho
    simp only [texts, List.forall_mem_cons] at h
    simp only [unbroken_append]
    exact ⟨⟨⟨⟨by decide, h.1⟩, by decide⟩, Link.unbroken_text h.2⟩, by decide⟩
  | relation r => cases ho

theorem unbroken_plain (h : ∀ s ∈ b.texts, Unbroken s) (ht : t ∈ b.plain) : Unbroken t := by
  cases b with
  | classBlock c => exact ClassBlock.unbroken_of_mem_body h ht
  | package name link body => cases ht
  | relation r =>
    rw [List.mem_singleton.mp ht]
    exact Relation.unbroken_text h

end Block

-- ---------------------------------------------------------------------------
-- Nesting
-- ---------------------------------------------------------------------------

/-- The lines of blocks at a depth: those that neither open nor close, and around the
lines of what is inside those that do. -/
inductive Nested (parts : List Block) : Nat → List String → Prop
  | nil : Nested parts depth []
  | plain (hb : b ∈ parts) (ht : text ∈ b.plain) (rest : Nested parts depth lines) :
    Nested parts depth ((tabs depth ++ text) :: lines)
  | block (hb : b ∈ parts) (ht : b.opening? = some text) (inner : Nested parts (depth + 1) inside)
      (rest : Nested parts depth lines) :
    Nested parts depth ((tabs depth ++ text) :: (inside ++ (tabs depth ++ "\x7d") :: lines))

namespace Nested

variable {parts : List Block} {depth : Nat} {lines more inside : List String}

theorem append (h : Nested parts depth lines) (h' : Nested parts depth more) :
    Nested parts depth (lines ++ more) := by
  induction h with
  | nil => exact h'
  | plain hb ht _ ih => exact .plain hb ht (ih h')
  | block hb ht inner _ _ ih =>
    simp only [List.cons_append, List.append_assoc]
    exact .block hb ht inner (ih h')

theorem of_plain (hb : b ∈ parts) (h : lines ⊆ b.plain) :
    Nested parts depth (lines.map (tabs depth ++ ·)) := by
  induction lines with
  | nil => exact .nil
  | cons text lines ih =>
    obtain ⟨htext, hlines⟩ := List.cons_subset.mp h
    exact .plain hb htext (ih hlines)

theorem map_tabs (depth : Nat) (lines : List String) :
    (lines.map ("\t" ++ ·)).map (tabs depth ++ ·) = lines.map (tabs (depth + 1) ++ ·) := by
  rw [List.map_map]
  exact List.map_congr_left fun line _ => by
    rw [Function.comp_apply, tabs_succ, String.append_assoc]

theorem single (hb : b ∈ parts) (ht : b.opening? = some text)
    (inner : Nested parts (depth + 1) (inside.map (tabs (depth + 1) ++ ·))) :
    Nested parts depth ((text :: inside.map ("\t" ++ ·) ++ ["\x7d"]).map (tabs depth ++ ·)) := by
  rw [List.map_append, List.map_cons, map_tabs, List.cons_append]
  exact .block hb ht inner .nil

end Nested

mutual

theorem nested_lines (b : Block) (h : b.parts ⊆ parts) (depth : Nat) :
    Nested parts depth (b.lines.map (tabs depth ++ ·)) := by
  cases b with
  | classBlock c =>
    have hc := h (List.mem_singleton_self (Block.classBlock c))
    rw [Block.lines]
    exact .single hc rfl (.of_plain hc (List.Subset.refl _))
  | package name link body =>
    rw [Block.parts, List.cons_subset] at h
    rw [Block.lines]
    exact .single h.1 rfl (nested_linesOfAll body h.2 (depth + 1))
  | relation r =>
    rw [Block.lines]
    exact .of_plain (h (List.mem_singleton_self (Block.relation r))) (List.Subset.refl _)

theorem nested_linesOfAll (bs : List Block) (h : partsOfAll bs ⊆ parts) (depth : Nat) :
    Nested parts depth ((linesOfAll bs).map (tabs depth ++ ·)) := by
  cases bs with
  | nil => exact .nil
  | cons b bs =>
    rw [partsOfAll, List.append_subset] at h
    rw [linesOfAll, List.map_append]
    exact (nested_lines b h.1 depth).append (nested_linesOfAll bs h.2 depth)

end

-- ---------------------------------------------------------------------------
-- Roles
-- ---------------------------------------------------------------------------

/-- What a line is, and what stands behind it. A line that opens a block stands in front of
the inside of the block and the line that closes it. -/
inductive Role (parts : List Block) (line : String) (after : List String) : Prop
  | plain (hb : b ∈ parts) (ht : text ∈ b.plain) (heq : line = tabs depth ++ text)
  | closing (heq : line = tabs depth ++ "\x7d")
  | opening (hb : b ∈ parts) (ht : b.opening? = some text) (heq : line = tabs depth ++ text)
      (inner : Nested parts (depth + 1) inside)
      (closed : inside ++ [tabs depth ++ "\x7d"] <+: after)

theorem Role.append (h : Role parts line after) (more : List String) :
    Role parts line (after ++ more) := by
  cases h with
  | plain hb ht heq => exact .plain hb ht heq
  | closing heq => exact .closing heq
  | opening hb ht heq inner closed =>
    exact .opening hb ht heq inner (List.prefix_append_of_prefix closed)

theorem suffix_append_cases (lead more : List α) (h : a :: after <:+ lead ++ more) :
    a :: after <:+ more ∨ ∃ own, a :: own <:+ lead ∧ after = own ++ more := by
  induction lead with
  | nil => exact .inl h
  | cons b lead ih =>
    rcases List.suffix_cons_iff.mp h with heq | h
    · obtain ⟨rfl, rfl⟩ := List.cons.inj heq
      exact .inr ⟨lead, List.suffix_refl _, rfl⟩
    · refine (ih h).imp_right ?_
      rintro ⟨own, hown, rfl⟩
      exact ⟨own, hown.trans (List.suffix_cons b lead), rfl⟩

namespace Nested

variable {parts : List Block} {depth : Nat} {line : String} {lines after : List String}

theorem role (h : Nested parts depth lines) (hline : line :: after <:+ lines) :
    Role parts line after := by
  induction h generalizing after with
  | nil => cases List.suffix_nil.mp hline
  | plain hb ht rest ih =>
    rcases List.suffix_cons_iff.mp hline with heq | hline
    · exact .plain hb ht (List.cons.inj heq).1
    · exact ih hline
  | block hb ht inner rest ihinner ihrest =>
    rcases List.suffix_cons_iff.mp hline with heq | hline
    · obtain ⟨rfl, rfl⟩ := List.cons.inj heq
      exact .opening hb ht rfl inner (by simp)
    · rcases suffix_append_cases _ _ hline with hline | ⟨own, hown, rfl⟩
      · rcases List.suffix_cons_iff.mp hline with heq | hline
        · exact .closing (List.cons.inj heq).1
        · exact ihrest hline
      · exact (ihinner hown).append _

theorem deep (h : Nested parts depth lines) :
    ∀ line ∈ lines, ∃ text, line = tabs depth ++ text := by
  induction h with
  | nil => exact nofun
  | plain hb ht rest ih => exact List.forall_mem_cons.mpr ⟨⟨_, rfl⟩, ih⟩
  | block hb ht inner rest ihinner ihrest =>
    refine List.forall_mem_cons.mpr ⟨⟨_, rfl⟩, List.forall_mem_append.mpr
      ⟨fun line hline => ?_, List.forall_mem_cons.mpr ⟨⟨_, rfl⟩, ihrest⟩⟩⟩
    obtain ⟨text, rfl⟩ := ihinner line hline
    exact ⟨"\t" ++ text, by rw [tabs_succ, String.append_assoc]⟩

theorem unbroken (h : Nested parts depth lines) (htexts : ∀ b ∈ parts, ∀ s ∈ b.texts, Unbroken s) :
    ∀ line ∈ lines, Unbroken line := by
  intro line hline
  obtain ⟨before, after, rfl⟩ := List.append_of_mem hline
  cases h.role (List.suffix_append before (line :: after)) with
  | plain hb ht heq =>
    exact heq ▸ unbroken_append.mpr ⟨unbroken_tabs _, Block.unbroken_plain (htexts _ hb) ht⟩
  | closing heq => exact heq ▸ unbroken_append.mpr ⟨unbroken_tabs _, by decide⟩
  | opening hb ht heq inner closed =>
    exact heq ▸ unbroken_append.mpr ⟨unbroken_tabs _, Block.unbroken_opening (htexts _ hb) ht⟩

end Nested

-- ---------------------------------------------------------------------------
-- Opening lines
-- ---------------------------------------------------------------------------

/-- The line opens a class or a package. -/
def Opens (depth : Nat) (line : String) : Prop :=
  ∃ keyword ∈ ["class ", "package "], ∃ name, line = tabs depth ++ (keyword ++ name ++ " \x7b")

theorem opens_opening {b : Block} (depth : Nat) (h : b.opening? = some text) :
    Opens depth (tabs depth ++ text) := by
  cases b with
  | classBlock c =>
    cases h
    refine ⟨"class ", by decide, c.name ++ if c.spotted then " << (S,black) >>" else "", ?_⟩
    simp only [ClassBlock.opening, String.append_assoc]
  | package name link body =>
    cases h
    refine ⟨"package ", by decide, name ++ " " ++ link.text, ?_⟩
    simp only [String.append_assoc]
  | relation r => cases h

namespace Opens

variable {depth : Nat} {line : String}

theorem indentation_eq (h : Opens depth line) : indentation line = depth := by
  obtain ⟨keyword, hkeyword, name, rfl⟩ := h
  have hstart : indentation (keyword ++ name ++ " \x7b") = 0 := by
    simp only [List.mem_cons, List.not_mem_nil, or_false] at hkeyword
    rcases hkeyword with rfl | rfl <;> simp [indentation]
  rw [indentation_tabs_append, hstart, Nat.add_zero]

theorem getLast? (h : Opens depth line) : line.toList.getLast? = some '\x7b' := by
  obtain ⟨keyword, -, name, rfl⟩ := h
  exact getLast?_append _ (getLast?_append _ rfl)

end Opens

/-- The lines inside a block, a tab deeper than it, and the line that closes it. -/
structure Encloses (depth : Nat) (inside after : List String) : Prop where
  closed : inside ++ [tabs depth ++ "\x7d"] <+: after
  deeper : ∀ line ∈ inside, ∃ text, line = tabs (depth + 1) ++ text

/-- The line says how two classes are related. -/
def Relates (parts : List Block) (line : String) : Prop :=
  ∃ r depth, .relation r ∈ parts ∧ line = tabs depth ++ r.text

/-- Lines that open a class or a package are closed. Those of relations are none of them,
whatever their names make them look like. -/
def Balanced (parts : List Block) (lines : List String) : Prop :=
  ∀ line after depth, line :: after <:+ lines → Opens depth line →
    Relates parts line ∨ ∃ inside, Encloses depth inside after

/-- A document between its markers, and in it what opens, closed again. -/
structure Framed (blocks : List Block) (text : String) : Prop where
  lines : split '\n' text = "@startuml" :: (linesOfAll blocks ++ ["@enduml", ""])
  markers : ∀ line ∈ linesOfAll blocks, line ≠ "@startuml" ∧ line ≠ "@enduml"
  balanced : ∀ line after depth, line :: after <:+ linesOfAll blocks → Opens depth line →
    Relates (partsOfAll blocks) line ∨
      ∃ inside, Encloses depth inside after ∧ Balanced (partsOfAll blocks) inside

def ClassBlock.Quiet (c : ClassBlock) : Prop :=
  ∀ text ∈ c.body, text.toList.getLast? ≠ some '\x7b'

theorem getLast?_of_tabs_append {text : String} (hc : c ≠ '\t')
    (h : (tabs depth ++ text).toList.getLast? = some c) : text.toList.getLast? = some c := by
  rw [String.toList_append, List.getLast?_append, Option.or_eq_some_iff] at h
  refine h.resolve_right fun ⟨_, htab⟩ => hc ?_
  rw [tabs, String.toList_ofList] at htab
  exact List.eq_of_mem_replicate (List.mem_of_getLast? htab)

theorem Nested.exists_encloses (h : Nested parts depth lines)
    (hquiet : ∀ c, .classBlock c ∈ parts → c.Quiet) (hline : line :: after <:+ lines)
    (ho : Opens level line) :
    Relates parts line ∨
      ∃ inside, Encloses level inside after ∧ Nested parts (level + 1) inside := by
  have hlast := ho.getLast?
  cases h.role hline with
  | @plain b text _ hb ht heq =>
    rw [heq] at hlast
    have hbrace := getLast?_of_tabs_append (by decide) hlast
    cases b with
    | classBlock c => exact absurd hbrace (hquiet c hb text ht)
    | package name link body => cases ht
    | relation r => exact .inl ⟨r, _, hb, by rw [heq, List.mem_singleton.mp ht]⟩
  | closing heq =>
    rw [heq] at hlast
    exact absurd (getLast?_of_tabs_append (by decide) hlast) (by decide)
  | opening hb ht heq inner closed =>
    have hlevel : indentation line = _ := heq ▸ (opens_opening _ ht).indentation_eq
    obtain rfl := ho.indentation_eq.symm.trans hlevel
    exact .inr ⟨_, ⟨closed, inner.deep⟩, inner⟩

theorem Nested.balanced (h : Nested parts depth lines)
    (hquiet : ∀ c, .classBlock c ∈ parts → c.Quiet) : Balanced parts lines :=
  fun _ _ _ hline ho => (h.exists_encloses hquiet hline ho).imp_right fun ⟨inside, hinside, _⟩ =>
    ⟨inside, hinside⟩

-- ---------------------------------------------------------------------------
-- Documents
-- ---------------------------------------------------------------------------

theorem nested_document (blocks : List Block) :
    Nested (partsOfAll blocks) 0 (linesOfAll blocks) := by
  have h := nested_linesOfAll blocks (List.Subset.refl _) 0
  simpa only [tabs_zero, String.empty_append, List.map_id'] using h

theorem mem_linesOfAll (h : line ∈ linesOfAll bs) : ∃ b ∈ bs, line ∈ b.lines := by
  induction bs with
  | nil => cases h
  | cons b bs ih =>
    rw [linesOfAll, List.mem_append] at h
    rcases h with h | h
    · exact ⟨b, List.mem_cons_self, h⟩
    · obtain ⟨b', hb', h⟩ := ih h
      exact ⟨b', List.mem_cons_of_mem b hb', h⟩

/-- Some character of the line is in no marker. -/
def Unmarked (line : String) : Prop := ∃ c ∈ line.toList, c = '\t' ∨ c = ' ' ∨ c = '\x7d'

theorem Unmarked.ne (h : Unmarked line) : line ≠ "@startuml" ∧ line ≠ "@enduml" := by
  obtain ⟨c, hc, rfl | rfl | rfl⟩ := h <;>
  · constructor <;>
    · rintro rfl
      exact absurd hc (by decide)

theorem Opens.unmarked (h : Opens depth line) : Unmarked line := by
  obtain ⟨keyword, -, name, rfl⟩ := h
  exact ⟨' ', by simp, .inr (.inl rfl)⟩

theorem unmarked_of_mem_single {b : Block} {inside : List String} (ht : b.opening? = some text)
    (h : line ∈ text :: inside.map ("\t" ++ ·) ++ ["\x7d"]) : Unmarked line := by
  simp only [List.cons_append, List.mem_cons, List.mem_append, List.mem_map, List.not_mem_nil,
    or_false] at h
  rcases h with rfl | ⟨inner, -, rfl⟩ | rfl
  · have hopens := opens_opening 0 ht
    rw [tabs_zero, String.empty_append] at hopens
    exact hopens.unmarked
  · exact ⟨'\t', by simp, .inl rfl⟩
  · exact ⟨'\x7d', by simp, .inr (.inr rfl)⟩

theorem Block.unmarked_of_mem_lines {b : Block} (h : line ∈ b.lines) : Unmarked line := by
  cases b with
  | classBlock c => exact unmarked_of_mem_single (b := .classBlock c) rfl h
  | package name link body => exact unmarked_of_mem_single (b := .package name link body) rfl h
  | relation r =>
    rw [Block.lines, List.mem_singleton] at h
    refine ⟨' ', ?_, .inr (.inl rfl)⟩
    rw [h, Relation.text]
    cases r.extended <;> simp

theorem split_documentText (blocks : List Block) :
    split '\n' (documentText blocks) =
      "@startuml" :: ((linesOfAll blocks).flatMap (split '\n') ++ ["@enduml", ""]) := by
  have h := split_ended '\n' (["@startuml"] ++ linesOfAll blocks ++ ["@enduml"])
  rw [List.flatMap_append, List.flatMap_append] at h
  simp only [List.append_assoc] at h
  exact h

theorem framed_documentText (hquiet : ∀ c, .classBlock c ∈ partsOfAll blocks → c.Quiet)
    (htexts : ∀ b ∈ partsOfAll blocks, ∀ s ∈ b.texts, Unbroken s) :
    Framed blocks (documentText blocks) where
  lines := by
    have hlines : (linesOfAll blocks).flatMap (split '\n') = linesOfAll blocks := by
      rw [List.flatMap_congr fun line hline =>
        split_of_not_mem ((nested_document blocks).unbroken htexts line hline),
        List.flatMap_singleton']
    rw [split_documentText, hlines]
  markers line hline := by
    obtain ⟨b, -, hline⟩ := mem_linesOfAll hline
    exact (b.unmarked_of_mem_lines hline).ne
  balanced line after depth hline ho :=
    ((nested_document blocks).exists_encloses hquiet hline ho).imp_right
      fun ⟨inside, hinside, hinner⟩ => ⟨inside, hinside, hinner.balanced hquiet⟩

-- ---------------------------------------------------------------------------
-- Drawn classes
-- ---------------------------------------------------------------------------

theorem Link.getLast?_text (l : Link) : l.text.toList.getLast? = some ']' :=
  getLast?_append _ rfl

theorem MemberLine.getLast?_text {m : MemberLine}
    (h : m.child.isSome ∨ ∃ l : Link, m.content = l.text) :
    m.text.toList.getLast? = some ']' := by
  obtain ⟨isPublic, content, child⟩ := m
  cases child with
  | some l => exact getLast?_append _ (getLast?_append _ l.getLast?_text)
  | none =>
    obtain ⟨l, rfl⟩ := h.resolve_left Bool.false_ne_true
    rw [text, Option.elim_none, String.append_empty]
    exact getLast?_append _ l.getLast?_text

namespace Drawing

open Hierarchy

variable {w : Drawing} {n : Node}

theorem quiet_classBlock (w : Drawing) (n : Node) : (w.classBlock n).Quiet := by
  have hlink {text : String} (h : text.toList.getLast? = some ']') :
      text.toList.getLast? ≠ some '\x7b' := by
    rw [h]
    decide
  intro text htext
  rcases List.mem_cons.mp htext with rfl | htext
  · exact hlink (Link.getLast?_text _)
  · obtain ⟨lines, hlines, htext⟩ := List.mem_flatMap.mp htext
    rcases List.mem_cons.mp htext with rfl | htext
    · decide
    · obtain ⟨m, hm, rfl⟩ := List.mem_map.mp htext
      refine hlink (MemberLine.getLast?_text ?_)
      rcases mem_sections (List.mem_filter.mp hlines).1 hm with
        ⟨p, -, rfl⟩ | ⟨p, -, rfl⟩ | hm
      · exact .inr ⟨_, rfl⟩
      · exact .inr ⟨_, rfl⟩
      · obtain ⟨name, edge, child, -, -, rfl⟩ := mem_externalLines hm
        exact .inl rfl

theorem quiet_of_mem_blocks {root : Node} (hroot : root ∈ w.graph.nodes)
    (hc : .classBlock c ∈ partsOfAll (w.blocks root)) : c.Quiet := by
  obtain ⟨n, -, hpart⟩ := exists_of_mem_blocks hroot hc
  rw [eq_of_mem_partsOf hpart]
  exact w.quiet_classBlock n

end Drawing

namespace Generation

/-- Documents stand between their markers, and what they open they close again, while no
name, path or label in them breaks its line. -/
theorem run_framed (h : run config project check = .ok gen) :
    ∃ r, register project check = .ok r ∧
      gen.diagrams.map (·.text) = (drawnRoots config.diagram (wired config r)).map (fun root =>
        documentText (blocksOf config project (wired config r) root)) ∧
      ∀ root ∈ drawnRoots config.diagram (wired config r),
        let blocks := blocksOf config project (wired config r) root
        split '\n' (documentText blocks) =
            "@startuml" :: ((linesOfAll blocks).flatMap (split '\n') ++ ["@enduml", ""]) ∧
          ((∀ b ∈ partsOfAll blocks, ∀ s ∈ b.texts, Unbroken s) →
            Framed blocks (documentText blocks)) := by
  obtain ⟨r, hr, -, rfl⟩ := run_ok h
  refine ⟨r, hr, by simp [draw, Diagram.ofRoot, blocksOf, Function.comp_def],
    fun root hroot => ⟨split_documentText _, fun htexts => framed_documentText ?_ htexts⟩⟩
  exact fun c hc => Drawing.quiet_of_mem_blocks (mem_drawnRoots hroot) hc

theorem run_framed_level : ∃ gen r, run {} levelProject (.ok ()) = .ok gen ∧
    register levelProject (.ok ()) = .ok r ∧
    (drawnRoots {} (wired {} r)).map (·.name) = ["Level"] ∧
    ∀ root ∈ drawnRoots {} (wired {} r), Framed (blocksOf {} levelProject (wired {} r) root)
      (documentText (blocksOf {} levelProject (wired {} r) root)) := by
  have hfacts : (register levelProject (.ok ())).toOption.map (fun r =>
      ((wired {} r).cycle?, (drawnRoots {} (wired {} r)).map fun n => (n.name,
        decide (∀ b ∈ partsOfAll (blocksOf {} levelProject (wired {} r) n),
          ∀ s ∈ b.texts, Unbroken s)))) = some (none, [("Level", true)]) := by decide +kernel
  obtain ⟨r, hr, hfacts⟩ := toOption_map_eq_some.mp hfacts
  obtain ⟨hcycle, hroots⟩ := Prod.mk.inj hfacts
  obtain ⟨root, hroots, hroot⟩ := List.map_eq_singleton_iff.mp hroots
  obtain ⟨hname, htexts⟩ := Prod.mk.inj hroot
  have hrun := run_of_registered hr hcycle
  obtain ⟨r', hr', -, hframed⟩ := run_framed hrun
  obtain rfl : r = r' := Except.ok.inj (hr.symm.trans hr')
  refine ⟨_, r, hrun, hr, by simp [hroots, hname], fun root' hroot' => ?_⟩
  obtain rfl : root' = root := by simpa [hroots] using hroot'
  exact (hframed root' (by simp [hroots])).2 (of_decide_eq_true htexts)

def multilineProject : Project where
  dir := ⟨"/game"⟩
  scenes := [⟨⟨"A.tscn"⟩, "[node name=\"A\\n@enduml\\nB\" type=\"Node\"]\n"⟩]

theorem not_run_framed : ¬ ∀ (config : Config) (project : Project)
    (check : Except Failure Unit) (gen : Generation), run config project check = .ok gen →
    ∀ d ∈ gen.diagrams, ∃ inner, split '\n' d.text = "@startuml" :: (inner ++ ["@enduml", ""]) ∧
      ∀ line ∈ inner, line ≠ "@startuml" ∧ line ≠ "@enduml" := by
  intro h
  have htexts : (run {} multilineProject (.ok ())).toOption.map (·.diagrams.map fun d =>
      split '\n' d.text) = some [["@startuml", "class A", "@enduml", "B << (S,black) >> \x7b",
        "\t[[A.tscn SceneFile]]", "\x7d", "@enduml", ""]] := by decide +kernel
  obtain ⟨gen, hrun, htexts⟩ := toOption_map_eq_some.mp htexts
  obtain ⟨d, hd, hlines⟩ := List.map_eq_singleton_iff.mp htexts
  obtain ⟨inner, hinner, hmarkers⟩ := h {} multilineProject (.ok ()) gen hrun d (by simp [hd])
  rw [hlines] at hinner
  have hbetween : inner ++ ["@enduml", ""] = ["class A", "@enduml", "B << (S,black) >> \x7b",
      "\t[[A.tscn SceneFile]]", "\x7d"] ++ ["@enduml", ""] := (List.cons.inj hinner).2.symm
  have hmem : "@enduml" ∈ inner := by
    rw [List.append_cancel_right hbetween]
    decide
  exact (hmarkers _ hmem).2 rfl

end Generation

end SceneDiagram
