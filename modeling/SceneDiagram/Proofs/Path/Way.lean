import SceneDiagram.Proofs.Path.Trail

/-!
# Ways lead where they say

`wayTo_leads`: the way between two absolute directories, followed from the
first, leads to the second, where no step that it leaves is a `..`. A way
climbs once for each step that it leaves, so it climbs too far where such a
step leads up itself (`not_wayTo_leads`).
-/

namespace SceneDiagram.Path

open Text

variable {source target : Path}

-- ---------------------------------------------------------------------------
-- Where two paths part
-- ---------------------------------------------------------------------------

theorem diverge_spec (as bs : List Component) :
    ∃ shared, as = shared ++ (diverge as bs).1 ∧ bs = shared ++ (diverge as bs).2 := by
  induction as generalizing bs with
  | nil => exact ⟨[], by simp [diverge]⟩
  | cons a as ih =>
    cases bs with
    | nil => exact ⟨[], by simp [diverge]⟩
    | cons b bs =>
      by_cases h : a = b
      · obtain ⟨shared, has, hbs⟩ := ih bs
        refine ⟨a :: shared, ?_, ?_⟩
        · simpa [diverge, h] using has
        · simpa [diverge, h] using hbs
      · exact ⟨[], by simp [diverge, h]⟩

def parting (source target : Path) : List Component × List Component :=
  diverge source.components target.components

theorem parting_trail (hs : source.isAbsolute) (ht : target.isAbsolute) :
    parting source target = diverge source.trail target.trail := by
  rw [parting, components_of_isAbsolute hs, components_of_isAbsolute ht]
  simp [diverge]

theorem isInner_of_mem_parting (hs : source.isAbsolute) (ht : target.isAbsolute)
    (h : c ∈ (parting source target).1 ∨ c ∈ (parting source target).2) : c.IsInner := by
  obtain ⟨shared, hsource, htarget⟩ := diverge_spec source.trail target.trail
  rw [parting_trail hs ht] at h
  rcases h with h | h
  · exact isInner_of_mem_trail (p := source) (hsource ▸ List.mem_append_right shared h)
  · exact isInner_of_mem_trail (p := target) (htarget ▸ List.mem_append_right shared h)

-- ---------------------------------------------------------------------------
-- The text of a way
-- ---------------------------------------------------------------------------

def waySteps (source target : Path) : List Component :=
  List.replicate (parting source target).1.length .up ++ (parting source target).2

theorem here_not_mem_components (h : source.isAbsolute) : .here ∉ source.components := by
  rw [components_of_isAbsolute h]
  intro hmem
  rcases List.mem_cons.mp hmem with hroot | hmem
  · cases hroot
  · cases isInner_of_mem_trail hmem

theorem filter_components (h : source.isAbsolute) :
    source.components.filter (· ≠ .here) = source.components := by
  refine List.filter_eq_self.mpr fun c hc => ?_
  simp only [ne_eq, decide_not, Bool.not_eq_true', decide_eq_false_iff_not]
  rintro rfl
  exact here_not_mem_components h hc

theorem wayTo_eq (hs : source.isAbsolute) (ht : target.isAbsolute) :
    wayTo source target = join "" ((waySteps source target).map (·.text ++ "/")) := by
  simp only [wayTo, filter_components hs, filter_components ht]
  rw [waySteps, List.map_append, join_empty_append, List.map_replicate]
  rfl

theorem isInner_of_mem_waySteps (hs : source.isAbsolute) (ht : target.isAbsolute) :
    ∀ c ∈ waySteps source target, c.IsInner := by
  intro c hc
  rcases List.mem_append.mp hc with hc | hc
  · rw [List.eq_of_mem_replicate hc]
    exact .up
  · exact isInner_of_mem_parting hs ht (.inr hc)

theorem trail_wayTo (hs : source.isAbsolute) (ht : target.isAbsolute) :
    trail ⟨wayTo source target⟩ = waySteps source target := by
  rw [wayTo_eq hs ht, trail_walked (isInner_of_mem_waySteps hs ht)]

theorem not_isAbsolute_walked {steps : List Component} (h : ∀ c ∈ steps, c.IsInner) :
    ¬ isAbsolute ⟨join "" (steps.map (·.text ++ "/"))⟩ := by
  cases steps with
  | nil => decide
  | cons c steps =>
    have hc := h c List.mem_cons_self
    rw [List.map_cons, join_empty_cons, String.append_assoc, isAbsolute_append hc.text_ne_empty]
    exact not_isAbsolute_of_noSlash hc.noSlash

theorem walked_eq_empty_or_slash (steps : List Component) :
    join "" (steps.map (·.text ++ "/")) = "" ∨
      ∃ t, join "" (steps.map (·.text ++ "/")) = t ++ "/" := by
  induction steps with
  | nil => exact .inl rfl
  | cons c steps ih =>
    rw [List.map_cons, join_empty_cons]
    rcases ih with ih | ⟨t, ih⟩
    · exact .inr ⟨c.text, by simp [ih]⟩
    · exact .inr ⟨c.text ++ "/" ++ t, by simp [ih, String.append_assoc]⟩

-- ---------------------------------------------------------------------------
-- Following a way
-- ---------------------------------------------------------------------------

theorem eq_names {steps : List Component} (h : ∀ c ∈ steps, c.IsInner) (hup : .up ∉ steps) :
    ∃ names : List String, steps = names.map .name := by
  induction steps with
  | nil => exact ⟨[], rfl⟩
  | cons c steps ih =>
    obtain ⟨hc, hsteps⟩ := List.forall_mem_cons.mp h
    obtain ⟨hcup, hup⟩ := not_or.mp (mt List.mem_cons.mpr hup)
    obtain ⟨names, rfl⟩ := ih hsteps hup
    cases hc with
    | up => exact absurd rfl hcup
    | name => exact ⟨_ :: names, rfl⟩

theorem reach_back (place names : List String) :
    reach (place ++ names) (List.replicate names.length .up) = place := by
  simp [reach_ups]

/-- A way is empty or ends with a slash and, where no step that it leaves is a
`..`, leads from the source to the target. -/
theorem wayTo_leads (hs : source.isAbsolute) (ht : target.isAbsolute) :
    (wayTo source target = "" ∨ ∃ t, wayTo source target = t ++ "/") ∧
      (.up ∉ (parting source target).1 →
        reach [] (source.resolve ⟨wayTo source target⟩).components =
          reach [] target.components) := by
  constructor
  · rw [wayTo_eq hs ht]
    exact walked_eq_empty_or_slash _
  · intro hup
    have hrelative : ¬ isAbsolute ⟨wayTo source target⟩ := by
      rw [wayTo_eq hs ht]
      exact not_isAbsolute_walked (isInner_of_mem_waySteps hs ht)
    obtain ⟨shared, hsource, htarget⟩ := diverge_spec source.trail target.trail
    rw [← parting_trail hs ht] at hsource htarget
    -- The steps to leave are names, so as many steps up lead back to where the two part.
    obtain ⟨names, hnames⟩ := eq_names (fun c hc => isInner_of_mem_parting hs ht (.inl hc)) hup
    rw [hnames] at hsource
    calc reach [] (source.resolve ⟨wayTo source target⟩).components
        = reach [] (source.trail ++ waySteps source target) := by
          rw [reach_components, trail_resolve source hrelative, trail_wayTo hs ht]
      _ = reach (reach (reach [] shared ++ names) (List.replicate names.length .up))
            (parting source target).2 := by
          rw [hsource, waySteps, hnames, List.length_map, reach_append, reach_append, reach_append,
            reach_names]
      _ = reach [] target.components := by
          rw [reach_back, ← reach_append, ← htarget, ← reach_components]

theorem wayTo_leads_aside : isAbsolute ⟨"/a/out"⟩ ∧ isAbsolute ⟨"/a/../b"⟩ ∧
    .up ∉ (parting ⟨"/a/out"⟩ ⟨"/a/../b"⟩).1 ∧ wayTo ⟨"/a/out"⟩ ⟨"/a/../b"⟩ = "../../b/" ∧
    reach [] (resolve ⟨"/a/out"⟩ ⟨wayTo ⟨"/a/out"⟩ ⟨"/a/../b"⟩⟩).components = ["b"] := by
  have hs : isAbsolute ⟨"/a/out"⟩ := by decide
  have ht : isAbsolute ⟨"/a/../b"⟩ := by decide
  have hup : .up ∉ (parting ⟨"/a/out"⟩ ⟨"/a/../b"⟩).1 := by decide +kernel
  exact ⟨hs, ht, hup, by decide +kernel, (wayTo_leads hs ht).2 hup⟩

/-- A step that leads up is climbed out of all the same. -/
theorem not_wayTo_leads : ¬ ∀ source target : Path, source.isAbsolute → target.isAbsolute →
    reach [] (source.resolve ⟨wayTo source target⟩).components = reach [] target.components := by
  intro h
  have hleads := h ⟨"/cwd/../docs"⟩ ⟨"/cwd"⟩ (by decide) (by decide)
  have hmisses : reach [] (resolve ⟨"/cwd/../docs"⟩ ⟨wayTo ⟨"/cwd/../docs"⟩ ⟨"/cwd"⟩⟩).components ≠
      reach [] (components ⟨"/cwd"⟩) := by decide +kernel
  exact hmisses hleads

end SceneDiagram.Path
