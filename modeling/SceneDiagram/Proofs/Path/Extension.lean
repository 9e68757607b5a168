import SceneDiagram.Proofs.Path.FileName
import SceneDiagram.Proofs.Path.Spelling

/-!
# Paths without extension

Without its extension a path ends with the stem of its file name, unless that
stem spells a step of its own (`getLast?_withoutExtension`).
-/

namespace SceneDiagram.Path

open Text

variable {p : Path} {name s : String} {steps : List Component}

-- ---------------------------------------------------------------------------
-- Stems
-- ---------------------------------------------------------------------------

theorem stem_cases (name : String) : (cutExtension name).1 = name ∨
    ∃ stem, stem ≠ [] ∧ stem <+: name.toList ∧ (cutExtension name).1 = String.ofList stem := by
  unfold cutExtension
  simp only
  split
  · exact .inl rfl
  · exact .inl rfl
  · next _ point stem hmore hdrop =>
    have hback : stem <:+ name.toList.reverse :=
      (List.suffix_cons point stem).trans (hdrop ▸ List.drop_suffix _ _)
    refine .inr ⟨stem.reverse, by simpa using hmore, ?_, rfl⟩
    rwa [← List.reverse_reverse name.toList, List.reverse_prefix]

theorem stem_ne_empty (h : name ≠ "") : (cutExtension name).1 ≠ "" := by
  rcases stem_cases name with heq | ⟨stem, hne, -, heq⟩
  · rwa [heq]
  · rw [heq]
    simpa using hne

theorem noSlash_stem (h : '/' ∉ name.toList) : '/' ∉ (cutExtension name).1.toList := by
  rcases stem_cases name with heq | ⟨stem, -, hlead, heq⟩
  · rwa [heq]
  · rw [heq, String.toList_ofList]
    exact fun hmem => h (hlead.subset hmem)

/-- A name has the extension that stands behind its last point, unless that point is its
first character. -/
theorem cutExtension_eq_some : (cutExtension name).2 = some s ↔
    ∃ stem, stem ≠ "" ∧ '.' ∉ s.toList ∧ name = stem ++ "." ++ s := by
  unfold cutExtension
  simp only
  constructor
  · intro h
    obtain ⟨w, rest, hback, hw, hrest, hrun⟩ := exists_run (· != '.') name.toList.reverse
    rw [hrun, hback, List.drop_left] at h
    split at h
    · cases h
    · cases h
    · next _ point stem hmore =>
      cases h
      have hpoint : point = '.' := by simpa using hrest point rfl
      have hname : name.toList = stem.reverse ++ '.' :: w.reverse := by
        rw [← List.reverse_reverse name.toList, hback, hpoint]
        simp
      refine ⟨String.ofList stem.reverse, ?_, ?_, ?_⟩
      · simpa using hmore
      · simpa using fun hmem => hw '.' hmem
      · rw [← String.toList_inj, hname]
        simp
  · rintro ⟨stem, hne, hpoint, rfl⟩
    have hback : (stem ++ "." ++ s).toList.reverse =
        s.toList.reverse ++ '.' :: stem.toList.reverse := by simp
    have hno : ∀ c ∈ s.toList.reverse, c != '.' := fun c hc =>
      bne_iff_ne.mpr fun heq => hpoint (heq ▸ List.mem_reverse.mp hc)
    have hstem : stem.toList.reverse ≠ [] := by simpa using hne
    obtain ⟨c, cs, hstem⟩ := List.exists_cons_of_ne_nil hstem
    rw [hback, takeWhile_run hno (by simp), List.drop_left, hstem]
    simp

-- ---------------------------------------------------------------------------
-- Dropping the extension
-- ---------------------------------------------------------------------------

theorem not_isAbsolute_of_isInner (h : ∀ c ∈ p.components, c.IsInner) : ¬ p.isAbsolute := by
  intro habsolute
  have hroot : Component.root ∈ p.components := by
    rw [components_of_isAbsolute habsolute]
    exact List.mem_cons_self
  cases h _ hroot

theorem components_slashed (h : ∀ c ∈ steps, c.IsInner) : components ⟨slashed steps⟩ = steps := by
  cases steps with
  | nil => exact components_eq_nil.mpr rfl
  | cons c steps =>
    have hne : slashed (c :: steps) ≠ "" := by
      intro hempty
      have htrail := trail_slashed h
      rw [hempty, trail_empty] at htrail
      cases htrail
    obtain ⟨hc, hsteps⟩ := List.forall_mem_cons.mp h
    have hsplit := split_slashed h (List.cons_ne_nil c steps)
    rw [List.map_cons] at hsplit
    rw [components_of_split (p := ⟨slashed (c :: steps)⟩) hsplit hne, hc.opening,
      filterMap_ofPiece? hsteps]

theorem isInner_withoutExtension (h : ∀ c ∈ p.components, c.IsInner) :
    ∀ c ∈ p.withoutExtension, c.IsInner := by
  unfold withoutExtension
  split
  · next s hlast =>
    intro c hc
    rcases List.mem_append.mp hc with hc | hc
    · exact h c (List.dropLast_subset _ hc)
    · have hname : .name s ∈ p.components := List.mem_of_getLast? hlast
      obtain ⟨hslash⟩ : IsName s := by
        cases h _ hname with
        | name hs => exact hs
      refine (Component.isInner_of_ofPiece? ?_ (Option.mem_toList.mp hc)).1
      split
      · decide
      · exact noSlash_stem hslash
  · exact h

theorem getLast?_withoutExtension (h : p.fileName? = some s)
    (hhere : (cutExtension s).1 ≠ ".") (hup : (cutExtension s).1 ≠ "..") :
    p.withoutExtension.getLast? = some (.name (cutExtension s).1) := by
  rw [fileName?_eq_some] at h
  have hname : s ≠ "" := by
    cases isInner_of_mem_trail (List.mem_of_getLast? h) with
    | name hs => exact hs.ne_empty
  rw [← getLast?_components] at h
  simp [withoutExtension, h, hhere, hup, Component.ofPiece?, stem_ne_empty hname]

theorem fileName?_resolve (h : p.fileName? = some s) (base : Path) :
    (base.resolve p).fileName? = some s := by
  rw [fileName?_eq_some, ← getLast?_components]
  exact getLast?_steps_resolve h base

end SceneDiagram.Path
