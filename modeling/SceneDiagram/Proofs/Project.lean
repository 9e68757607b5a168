import SceneDiagram.Proofs.Diagram.LinkTarget

/-!
# Two forms of one file

A file is known by its path below the project and absolutely. `forms_agree`: both
name one place where the file is given below the project, or absolutely with the
steps of the project in front; then links of both styles lead to that place. An
absolute path elsewhere keeps all its steps below the project too, and so leads
astray there (`not_forms_agree`).
-/

namespace SceneDiagram

open Text
open SceneDiagram.Path (IsName LeadsTo follow placeFrom reach trail)

-- ---------------------------------------------------------------------------
-- Addresses
-- ---------------------------------------------------------------------------

namespace Path

variable {p dir file : Path}

theorem slashPath_eq (p : Path) : p.slashPath = slashed p.trail := by
  rw [slashPath, ← slashed_shownSteps, shownSteps_components]

theorem trail_slashPath (p : Path) : trail ⟨p.slashPath⟩ = p.trail := by
  rw [slashPath_eq, trail_slashed fun c hc => isInner_of_mem_trail hc]

theorem placeFrom_slashPath (cwd : List String) (h : p.isAbsolute) :
    placeFrom cwd ⟨"/" ++ p.slashPath⟩ = p.placeFrom cwd := by
  have hfront : isAbsolute ⟨"/" ++ p.slashPath⟩ := by simp [isAbsolute]
  have htrail : trail ⟨"/" ++ p.slashPath⟩ = p.trail := by
    simpa [trail_slashPath] using trail_slash "" p.slashPath
  rw [placeFrom_of_isAbsolute cwd hfront, placeFrom_of_isAbsolute cwd h, htrail]

theorem not_prefix_of_not_isAbsolute (hdir : dir.isAbsolute) (h : ¬ file.isAbsolute) :
    ¬ dir.components <+: file.components := by
  intro hlead
  have hroot : .root ∈ dir.components := by
    rw [components_of_isAbsolute hdir]
    exact List.mem_cons_self
  exact h (isAbsolute_of_mem_components (hlead.subset hroot))

end Path

-- ---------------------------------------------------------------------------
-- Files of a project
-- ---------------------------------------------------------------------------

namespace FileRef

variable {dir file : Path}

theorem isAbsolute_inProject (hdir : dir.isAbsolute) (file : Path) :
    (inProject dir file).absolute.isAbsolute := by
  by_cases hfile : file.isAbsolute
  · rwa [inProject, Path.resolve_of_isAbsolute dir hfile]
  · rwa [inProject, Path.isAbsolute_resolve dir hfile]

theorem placeFrom_relative (cwd : List String) (hdir : dir.isAbsolute) (file : Path) :
    (dir.resolve ⟨(inProject dir file).relative⟩).placeFrom cwd =
      reach [] (dir.trail ++ trail ⟨relativeTo dir file⟩) := by
  have hrelative := not_isAbsolute_relative dir file
  have habsolute : (dir.resolve ⟨(inProject dir file).relative⟩).isAbsolute := by
    rwa [Path.isAbsolute_resolve dir hrelative]
  rw [Path.placeFrom_of_isAbsolute cwd habsolute, Path.trail_resolve dir hrelative, inProject]

theorem trail_relative (dir file : Path) :
    dir.components <+: file.components ∧ file.trail = dir.trail ++ trail ⟨relativeTo dir file⟩ ∨
      ¬ dir.components <+: file.components ∧ file.trail = trail ⟨relativeTo dir file⟩ := by
  obtain ⟨steps, hrelative, hcases⟩ := relativeTo_cases dir file
  have hinner : ∀ c ∈ steps, c.IsInner := by
    intro c hc
    rcases hcases with ⟨-, hfile⟩ | ⟨-, hfile⟩
    · exact Path.isInner_of_mem_trail (p := file) (hfile ▸ List.mem_append_right _ hc)
    · exact Path.isInner_of_mem_trail (p := file) (hfile ▸ hc)
  rwa [hrelative, Path.trail_slashed hinner]

theorem placeFrom_inProject (cwd : List String) (hdir : dir.isAbsolute)
    (hfile : ¬ file.isAbsolute ∨ dir.components <+: file.components) :
    (dir.resolve ⟨(inProject dir file).relative⟩).placeFrom cwd =
      (inProject dir file).absolute.placeFrom cwd := by
  rw [placeFrom_relative cwd hdir,
    Path.placeFrom_of_isAbsolute cwd (isAbsolute_inProject hdir file), inProject]
  rcases trail_relative dir file with ⟨hlead, htrail⟩ | ⟨hlead, htrail⟩
  · have habsolute : file.isAbsolute := by
      by_contra hrelative
      exact Path.not_prefix_of_not_isAbsolute hdir hrelative hlead
    rw [Path.resolve_of_isAbsolute dir habsolute, htrail]
  · have hrelative : ¬ file.isAbsolute := hfile.resolve_right hlead
    rw [Path.trail_resolve dir hrelative, htrail]

/-- A file that is given below the project, or absolutely with the steps of the project
in front, has one place in both forms and for links of both styles. Of another absolute
path all steps are read from the project. -/
theorem forms_agree (hdir : dir.isAbsolute) (cwd : List String) (file : Path) :
    let f := inProject dir file
    ((¬ file.isAbsolute ∨ dir.components <+: file.components) →
      (dir.resolve ⟨f.relative⟩).placeFrom cwd = f.absolute.placeFrom cwd ∧
      ∀ protocol out base path, LeadsTo cwd out dir base →
        (∀ piece ∈ split '/' path, IsName piece) →
        ∃ address, (LinkStyle.absolute protocol).target f = protocol ++ "://file" ++ address ∧
          Path.isAbsolute ⟨address⟩ ∧
          placeFrom cwd ⟨address⟩ =
            placeFrom ((out.resolve ⟨path⟩).placeFrom cwd).dropLast
              ⟨(LinkStyle.ofDocument path base).target f⟩) ∧
    (file.isAbsolute → ¬ dir.components <+: file.components →
      f.absolute = file ∧
      (dir.resolve ⟨f.relative⟩).placeFrom cwd = reach (dir.placeFrom cwd) file.trail) := by
  intro f
  refine ⟨fun hfile => ⟨placeFrom_inProject cwd hdir hfile, ?_⟩, fun habsolute hlead => ⟨?_, ?_⟩⟩
  · intro protocol out base path hbase hnames
    have haddress : Path.isAbsolute ⟨"/" ++ f.absolute.slashPath⟩ := by simp [Path.isAbsolute]
    refine ⟨"/" ++ f.absolute.slashPath, ?_, haddress, ?_⟩
    · have hslash : "://file/" = "://file" ++ "/" := rfl
      simp only [LinkStyle.target, hslash, String.append_assoc]
    · rw [Path.placeFrom_slashPath cwd (isAbsolute_inProject hdir file),
        ← placeFrom_inProject cwd hdir hfile, LinkStyle.placeFrom_target hbase hnames]
  · exact Path.resolve_of_isAbsolute dir habsolute
  · obtain ⟨hlead', -⟩ | ⟨-, htrail⟩ := trail_relative dir file
    · exact absurd hlead' hlead
    · rw [placeFrom_relative cwd hdir, Path.reach_append, ← htrail,
        Path.placeFrom_of_isAbsolute cwd hdir]

theorem forms_agree_inside : Path.isAbsolute ⟨"/game"⟩ ∧
    Path.components ⟨"/game"⟩ <+: Path.components ⟨"/game/../lib/./Shared.cs"⟩ ∧
    LeadsTo [] ⟨"/out"⟩ ⟨"/game"⟩ "../game/" ∧ (∀ piece ∈ split '/' "A/B.g.puml", IsName piece) ∧
    placeFrom [] (Path.resolve ⟨"/game"⟩ ⟨"../lib/Shared.cs"⟩) =
      placeFrom [] ⟨"/game/../lib/./Shared.cs"⟩ ∧
    (∃ address, (LinkStyle.absolute "vscode").target
        (inProject ⟨"/game"⟩ ⟨"/game/../lib/./Shared.cs"⟩) = "vscode://file" ++ address ∧
      placeFrom [] ⟨address⟩ = placeFrom ["out", "A"] ⟨"../../game/../lib/Shared.cs"⟩) ∧
    placeFrom [] (Path.resolve ⟨"/game"⟩ ⟨"lib/Shared.cs"⟩) =
      reach (placeFrom [] ⟨"/game"⟩) (trail ⟨"/lib/Shared.cs"⟩) := by
  have hdir : Path.isAbsolute ⟨"/game"⟩ := by decide +kernel
  have hlead : Path.components ⟨"/game"⟩ <+: Path.components ⟨"/game/../lib/./Shared.cs"⟩ := by
    decide +kernel
  have hbase : LeadsTo [] ⟨"/out"⟩ ⟨"/game"⟩ "../game/" :=
    ⟨by decide +kernel, .inr ⟨"../game", rfl⟩, by decide +kernel⟩
  have hnames : ∀ piece ∈ split '/' "A/B.g.puml", IsName piece := by decide +kernel
  have hrelative : (inProject ⟨"/game"⟩ ⟨"/game/../lib/./Shared.cs"⟩).relative =
      "../lib/Shared.cs" := by decide +kernel
  have hhere : ((Path.resolve ⟨"/out"⟩ ⟨"A/B.g.puml"⟩).placeFrom []).dropLast = ["out", "A"] := by
    decide +kernel
  have htarget : (LinkStyle.ofDocument "A/B.g.puml" "../game/").target
      (inProject ⟨"/game"⟩ ⟨"/game/../lib/./Shared.cs"⟩) = "../../game/../lib/Shared.cs" := by
    decide +kernel
  have houtside : (inProject ⟨"/game"⟩ ⟨"/lib/Shared.cs"⟩).relative = "lib/Shared.cs" := by
    decide +kernel
  obtain ⟨hplace, hlinks⟩ := (forms_agree hdir [] ⟨"/game/../lib/./Shared.cs"⟩).1 (.inr hlead)
  obtain ⟨address, htext, -, haddress⟩ := hlinks "vscode" _ _ _ hbase hnames
  have helsewhere :=
    (forms_agree hdir [] ⟨"/lib/Shared.cs"⟩).2 (by decide +kernel) (by decide +kernel)
  rw [hhere, htarget] at haddress
  rw [hrelative] at hplace
  rw [houtside] at helsewhere
  exact ⟨hdir, hlead, hbase, hnames, hplace, ⟨address, htext, haddress⟩, helsewhere.2⟩

/-- An absolute path elsewhere is read from the project. -/
theorem not_forms_agree : ¬ ∀ (dir file : Path) (cwd : List String), dir.isAbsolute →
    (dir.resolve ⟨(inProject dir file).relative⟩).placeFrom cwd =
      (inProject dir file).absolute.placeFrom cwd := by
  intro h
  have hagree := h ⟨"/game"⟩ ⟨"/lib/Shared.cs"⟩ [] (by decide +kernel)
  revert hagree
  decide +kernel

end FileRef

end SceneDiagram
