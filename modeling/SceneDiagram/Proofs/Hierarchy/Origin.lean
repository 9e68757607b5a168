import SceneDiagram.Proofs.Hierarchy.Registry
import SceneDiagram.Proofs.Path.Extension

/-!
# Where nodes come from

Every registered node has a file that was given by a path, and one that is no
scene is called like that file (`Built.filed`). The path of a file below the
project ends with the name that the file has (`FileRef.fileName?_relative`).
-/

namespace SceneDiagram

-- ---------------------------------------------------------------------------
-- Files below a directory
-- ---------------------------------------------------------------------------

namespace Path

variable {dir file p : Path} {s : String}

theorem eq_append_of_stepsAfter? (h : stepsAfter? lead steps = some rest) :
    steps = lead ++ rest := by
  induction lead generalizing steps with
  | nil => exact Option.some.inj h
  | cons l lead ih =>
    cases steps with
    | nil => cases h
    | cons c steps =>
      simp only [stepsAfter?] at h
      split at h
      · next heq => rw [heq, ih h, List.cons_append]
      · cases h

theorem stepsAfter?_append (lead rest : List Component) :
    stepsAfter? lead (lead ++ rest) = some rest := by
  induction lead with
  | nil => rfl
  | cons l lead ih => simpa [stepsAfter?] using ih

def shownSteps (steps : List Component) : List Component := steps.filter (·.shown?.isSome)

theorem slashed_shownSteps (steps : List Component) : slashed (shownSteps steps) = slashed steps := by
  rw [slashed, slashed, shownSteps, List.filterMap_filter]
  congr 2
  funext c
  cases c <;> rfl

theorem shownSteps_components (p : Path) : shownSteps p.components = p.trail := by
  have hfront : shownSteps p.front = [] := by
    unfold front
    split
    · rfl
    · split <;> rfl
  have htrail : shownSteps p.trail = p.trail :=
    List.filter_eq_self.mpr fun c hc => by simp [(isInner_of_mem_trail hc).shown?]
  rw [components_eq, shownSteps, List.filter_append, ← shownSteps, ← shownSteps, hfront, htrail,
    List.nil_append]

end Path

namespace FileRef

open SceneDiagram.Path (shownSteps)

variable {dir file : Path} {s : String}

/-- The path below the project has the steps of the file, without those of the
project if it begins with them. -/
theorem relativeTo_cases (dir file : Path) : ∃ steps, relativeTo dir file = Path.slashed steps ∧
    (dir.components <+: file.components ∧ file.trail = dir.trail ++ steps ∨
      ¬ dir.components <+: file.components ∧ file.trail = steps) := by
  unfold relativeTo
  cases hafter : Path.stepsAfter? dir.components file.components with
  | none =>
    refine ⟨file.trail, ?_, .inr ⟨?_, rfl⟩⟩
    · rw [← Path.shownSteps_components, Path.slashed_shownSteps]
      rfl
    · rintro ⟨rest, hrest⟩
      rw [← hrest, Path.stepsAfter?_append] at hafter
      cases hafter
  | some rest =>
    have happend := Path.eq_append_of_stepsAfter? hafter
    refine ⟨shownSteps rest, (Path.slashed_shownSteps rest).symm, .inl ⟨⟨rest, happend.symm⟩, ?_⟩⟩
    rw [← Path.shownSteps_components, happend, shownSteps, List.filter_append, ← shownSteps,
      ← shownSteps, Path.shownSteps_components]

theorem trail_eq_append_relative (dir file : Path) :
    ∃ lead, (lead = [] ∨ lead = dir.trail) ∧
      file.trail = lead ++ Path.components ⟨relativeTo dir file⟩ := by
  obtain ⟨steps, hrelative, hcases⟩ := relativeTo_cases dir file
  obtain ⟨lead, hlead, hfile⟩ : ∃ lead, (lead = [] ∨ lead = dir.trail) ∧
      file.trail = lead ++ steps := by
    rcases hcases with ⟨-, hfile⟩ | ⟨-, hfile⟩
    · exact ⟨dir.trail, .inr rfl, hfile⟩
    · exact ⟨[], .inl rfl, hfile⟩
  have hinner : ∀ c ∈ steps, c.IsInner := fun c hc =>
    Path.isInner_of_mem_trail (p := file) (hfile ▸ List.mem_append_right lead hc)
  exact ⟨lead, hlead, by rw [hrelative, Path.components_slashed hinner, hfile]⟩

theorem isInner_of_mem_relative (dir file : Path) :
    ∀ c ∈ Path.components ⟨relativeTo dir file⟩, c.IsInner := by
  obtain ⟨lead, -, hfile⟩ := trail_eq_append_relative dir file
  intro c hc
  exact Path.isInner_of_mem_trail (p := file) (hfile ▸ List.mem_append_right lead hc)

/-- The path below the project ends with the name of the file, or it is empty and
the file is called like the project. -/
theorem fileName?_relativeTo (h : (dir.resolve file).fileName? = some s) :
    (Path.mk (relativeTo dir file)).fileName? = some s ∨
      Path.components ⟨relativeTo dir file⟩ = [] ∧ dir.fileName? = some s := by
  obtain ⟨lead, hlead, hfile⟩ := trail_eq_append_relative dir file
  -- Joined to the project or not, the file has its own steps behind none or behind
  -- some that end like the project does.
  obtain ⟨before, hbefore, htrail⟩ : ∃ before,
      (before = [] ∨ before.getLast? = dir.trail.getLast?) ∧
      (dir.resolve file).trail = before ++ Path.components ⟨relativeTo dir file⟩ := by
    by_cases habsolute : file.isAbsolute
    · rw [Path.resolve_of_isAbsolute dir habsolute]
      exact ⟨lead, hlead.imp_right fun heq => by rw [heq], hfile⟩
    · rw [Path.trail_resolve dir habsolute, hfile, ← List.append_assoc]
      refine ⟨dir.trail ++ lead, .inr ?_, rfl⟩
      rcases hlead with rfl | rfl
      · rw [List.append_nil]
      · simp
  rw [Path.fileName?_eq_some, htrail, List.getLast?_append] at h
  rw [Path.fileName?_eq_some, ← Path.getLast?_components, Path.fileName?_eq_some]
  cases hsteps : (Path.components ⟨relativeTo dir file⟩).getLast? with
  | some c =>
    rw [hsteps] at h
    exact .inl h
  | none =>
    rw [hsteps, Option.none_or] at h
    refine .inr ⟨List.getLast?_eq_none_iff.mp hsteps, ?_⟩
    rcases hbefore with rfl | hbefore
    · cases h
    · rwa [← hbefore]

end FileRef

-- ---------------------------------------------------------------------------
-- Registered nodes
-- ---------------------------------------------------------------------------

namespace Hierarchy

/-- The file of a node was given by a path, and it has the node's name unless the
node was made from a scene. -/
def Node.FiledIn (dir : Path) (n : Node) : Prop :=
  ∃ file, n.file = FileRef.inProject dir file ∧ (n.isScene ∨ file.nodeName? = some n.name)

namespace Registry

variable {r : Registry} {n : Node}

def Filed (r : Registry) : Prop := ∀ n ∈ r.nodes, n.FiledIn r.dir

theorem filed_insert (h : r.Filed) (hn : n.FiledIn r.dir) : (r.insert n).Filed := by
  unfold insert
  split
  · exact h
  · intro m hm
    rcases List.mem_append.mp hm with hm | hm
    · exact h m hm
    · rw [List.mem_singleton.mp hm]
      exact hn

theorem filed_addScene (h : r.Filed) : (r.addScene path scene).Filed := by
  unfold addScene
  simp only
  split
  · next n hn =>
    simp only [Node.ofScene?, Option.map_eq_some_iff] at hn
    obtain ⟨root, -, rfl⟩ := hn
    exact filed_insert h ⟨path, rfl, .inl rfl⟩
  · exact h

theorem filed_addGroup (h : r.Filed) : (r.addGroup g).Filed := by
  unfold addGroup
  split
  · exact h
  · next name hname =>
    split
    · intro n hn
      obtain ⟨m, hm, rfl⟩ := List.mem_map.mp hn
      split
      · exact h m hm
      · exact h m hm
    · exact filed_insert h ⟨g.file, rfl, .inr hname⟩

theorem filed_addDeclarations (h : r.Filed) : (r.addDeclarations ds).Filed := by
  unfold addDeclarations
  induction Group.ofDeclarations ds generalizing r with
  | nil => exact h
  | cons g gs ih => exact ih (filed_addGroup h)

theorem Built.filed (h : r.Built) : r.Filed := by
  induction h with
  | empty dir => simp [Filed]
  | warn _ _ ih => exact ih
  | addScene _ _ _ ih => exact filed_addScene ih
  | addDeclarations _ _ ih => exact filed_addDeclarations ih

end Registry

end Hierarchy

end SceneDiagram
