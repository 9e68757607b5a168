import SceneDiagram.Proofs.Diagram.OutputPath
import SceneDiagram.Proofs.Path.Way

/-!
# Documents below the output directory

`run_stays_below`: the path of a document is relative and without `..` exactly where
nothing that it is put together from leads out, and then it denotes a file below the
output directory. The path of a root's file is taken as it is, though, so that a file
beside the project has its document beside the output directory
(`not_run_stays_below`).
-/

namespace SceneDiagram

open Text

namespace Path

variable {p : Path} {s x : String} {steps : List Component}

-- ---------------------------------------------------------------------------
-- Paths that stay below
-- ---------------------------------------------------------------------------

/-- The path is relative and holds no `..`. -/
structure StaysBelow (p : Path) : Prop where
  relative : ¬ p.isAbsolute
  noUp : .up ∉ p.components

theorem up_mem_components : .up ∈ p.components ↔ ".." ∈ split '/' p.text := by
  have hfront : .up ∉ p.front := by
    unfold front
    split
    · simp
    · split <;> simp
  rw [components_eq, List.mem_append, trail, List.mem_filterMap]
  constructor
  · rintro (hup | ⟨piece, hpiece, hup⟩)
    · exact absurd hup hfront
    · obtain ⟨-, rfl⟩ := Component.isInner_of_ofPiece? (not_mem_of_mem_split hpiece) hup
      exact hpiece
  · exact fun h => .inr ⟨"..", h, rfl⟩

theorem StaysBelow.exists_names (h : p.StaysBelow) : ∃ names : List String,
    p.trail = names.map .name ∧ ∀ (disk : Disk) (dir : Path),
      disk.destination (dir.resolve p) = disk.destination dir ++ names := by
  have hup : .up ∉ p.trail := fun hup =>
    h.noUp (by rw [components_eq]; exact List.mem_append_right _ hup)
  obtain ⟨names, hnames⟩ := eq_names (fun _ => isInner_of_mem_trail) hup
  refine ⟨names, hnames, fun disk dir => ?_⟩
  rw [Disk.destination_resolve disk dir h.relative, hnames, reach_names]

theorem ending_mem_split (s : String) : ending s ∈ split '/' s := by
  obtain ⟨parts, hparts⟩ := split_concat s
  rw [hparts]
  exact List.mem_append_right parts (List.mem_singleton_self _)

/-- Not all of the path is empty or `.`. -/
def HasStep (p : Path) : Prop := ∃ piece ∈ split '/' p.text, IsStep piece

theorem StaysBelow.exists_below (h : p.StaysBelow) (hstep : p.HasStep) :
    ∃ below : Place, below ≠ [] ∧ ∀ (disk : Disk) (dir : Path),
      disk.destination (dir.resolve p) = disk.destination dir ++ below := by
  obtain ⟨names, hnames, hplace⟩ := h.exists_names
  refine ⟨names, ?_, hplace⟩
  rintro rfl
  obtain ⟨piece, hpiece, hstep⟩ := hstep
  obtain ⟨c, hc, -⟩ := hstep.exists_step
  have hmem : c ∈ p.trail := List.mem_filterMap.mpr ⟨piece, hpiece, hc⟩
  rw [hnames] at hmem
  cases hmem

theorem IsStep.of_append (h : IsStep s) (x : String) : IsStep (x ++ s) := by
  constructor
  · intro hempty
    exact h.1 (String.append_eq_empty_iff.mp hempty).2
  · intro hhere
    have hlist : x.toList ++ s.toList = ['.'] := by simpa using congrArg String.toList hhere
    rcases List.append_eq_singleton_iff.mp hlist with ⟨-, hpoint⟩ | ⟨-, hnil⟩
    · exact h.2 (String.toList_inj.mp hpoint)
    · exact h.1 (String.toList_eq_nil_iff.mp hnil)

theorem hasStep_append (x : String) (h : IsStep (ending s)) : HasStep ⟨x ++ s⟩ := by
  obtain ⟨lead, hlead⟩ := exists_ending_append x s
  refine ⟨ending (x ++ s), ending_mem_split _, ?_⟩
  rw [hlead]
  exact h.of_append lead

-- ---------------------------------------------------------------------------
-- Texts with a suffix
-- ---------------------------------------------------------------------------

def beginning (s : String) : String := ((split '/' s).head?).getD ""

theorem up_mem_split_append : ".." ∈ split '/' (x ++ s) ↔
    ".." ∈ (split '/' x).dropLast ∨ ending x ++ beginning s = ".." ∨
      ".." ∈ (split '/' s).tail := by
  obtain ⟨lead, l, f, rest, hx, hs, hwhole⟩ := exists_split_append '/' x s
  simp only [hwhole, ending, beginning, hx, hs, List.dropLast_concat, List.getLast?_concat,
    List.head?_cons, List.tail_cons, Option.getD_some, List.mem_append, List.mem_cons]
  rw [eq_comm (a := "..")]

theorem exists_withoutExtension (h : ∀ c ∈ p.components, c.IsInner) (hne : p.components ≠ []) :
    ∃ c, p.withoutExtension = p.components.dropLast ++ [c] := by
  unfold withoutExtension
  split
  · next name hlast =>
    have hname : IsName name := by
      cases h _ (List.mem_of_getLast? hlast) with
      | name hname => exact hname
    -- A stem that is a point is read as a `..`, so there is a step in any case.
    obtain ⟨c, hc⟩ : ∃ c, Component.ofPiece?
        (if (cutExtension name).1 = "." then ".." else (cutExtension name).1) = some c := by
      split
      · exact ⟨.up, rfl⟩
      · next hhere =>
        exact (IsStep.exists_step ⟨stem_ne_empty hname.ne_empty, hhere⟩).imp fun _ hc => hc.1
    exact ⟨c, by simp only [hc, Option.toList_some]⟩
  · exact ⟨_, (List.dropLast_concat_getLast hne).symm⟩

theorem withoutExtension_of_nil (h : p.components = []) : p.withoutExtension = [] := by
  simp [withoutExtension, h]

theorem dropLast_withoutExtension (h : ∀ c ∈ p.components, c.IsInner) :
    p.withoutExtension.dropLast = p.components.dropLast := by
  by_cases hne : p.components = []
  · rw [withoutExtension_of_nil hne, hne]
  · obtain ⟨c, hc⟩ := exists_withoutExtension h hne
    rw [hc, List.dropLast_concat]

theorem slashed_withoutExtension_eq_empty (h : ∀ c ∈ p.components, c.IsInner) :
    slashed p.withoutExtension = "" ↔ p.text = "" := by
  rw [← components_eq_nil (p := ⟨slashed p.withoutExtension⟩),
    components_slashed (isInner_withoutExtension h), ← components_eq_nil]
  constructor
  · intro hnil
    by_contra hne
    obtain ⟨c, hc⟩ := exists_withoutExtension h hne
    simp [hc] at hnil
  · exact withoutExtension_of_nil

theorem up_mem_dropLast_split (h : ∀ c ∈ steps, c.IsInner) :
    ".." ∈ (split '/' (slashed steps)).dropLast ↔ .up ∈ steps.dropLast := by
  cases steps with
  | nil => simp [slashed, join, split_of_not_mem]
  | cons c steps =>
    rw [split_slashed h (List.cons_ne_nil c steps), ← List.map_dropLast, List.mem_map]
    constructor
    · rintro ⟨d, hd, htext⟩
      cases h d (List.dropLast_subset _ hd) with
      | up => exact hd
      | name hname => exact absurd htext hname.ne_up
    · exact fun hup => ⟨.up, hup, rfl⟩

theorem not_isAbsolute_slashed (h : ∀ c ∈ steps, c.IsInner) : ¬ isAbsolute ⟨slashed steps⟩ :=
  not_isAbsolute_of_isInner (by rwa [components_slashed h])

end Path

-- ---------------------------------------------------------------------------
-- Documents
-- ---------------------------------------------------------------------------

namespace Diagram

open Hierarchy
open SceneDiagram.Path (beginning)

variable {config : DiagramConfig} {dir : Path} {root : Node}

def stem (config : DiagramConfig) (root : Node) : String :=
  if config.flattenOutput then root.name
  else Path.slashed (Path.withoutExtension ⟨root.file.relative⟩)

/-- Nothing that the path of a root's document is put together from leads out: the name of
the root or the folders of its file, the name that suffix and stem make together, and what
the suffix has behind a slash. -/
structure KeepsBelow (config : DiagramConfig) (root : Node) : Prop where
  sideBySide : config.flattenOutput →
    ¬ Path.isAbsolute ⟨root.name ++ config.outputSuffix⟩ ∧ ".." ∉ (split '/' root.name).dropLast
  besideFile : config.flattenOutput = false →
    (root.file.relative = "" → ¬ Path.isAbsolute ⟨config.outputSuffix⟩) ∧
      .up ∉ (Path.components ⟨root.file.relative⟩).dropLast
  name : ending (stem config root) ++ beginning config.outputSuffix ≠ ".."
  suffix : ".." ∉ (split '/' config.outputSuffix).tail

instance : Decidable (KeepsBelow config root) :=
  decidable_of_iff (_ ∧ _ ∧ _ ∧ _)
    ⟨fun ⟨hside, hfile, hname, hsuffix⟩ => ⟨hside, hfile, hname, hsuffix⟩,
      fun ⟨hside, hfile, hname, hsuffix⟩ => ⟨hside, hfile, hname, hsuffix⟩⟩

theorem isInner_file (h : root.FiledIn dir) :
    ∀ c ∈ Path.components ⟨root.file.relative⟩, c.IsInner := by
  obtain ⟨file, hfile, -⟩ := h
  rw [hfile]
  exact FileRef.isInner_of_mem_relative dir file

theorem isAbsolute_besideFile (h : root.FiledIn dir) (hflat : config.flattenOutput = false) :
    Path.isAbsolute ⟨outputPath config root⟩ ↔
      root.file.relative = "" ∧ Path.isAbsolute ⟨config.outputSuffix⟩ := by
  have hinner := isInner_file h
  have hstem := Path.slashed_withoutExtension_eq_empty hinner
  rw [outputPath, if_neg (Bool.eq_false_iff.mp hflat)]
  by_cases hempty : root.file.relative = ""
  · rw [hstem.mpr hempty, String.empty_append]
    exact (and_iff_right hempty).symm
  · have hrelative := Path.not_isAbsolute_slashed (Path.isInner_withoutExtension hinner)
    rw [Path.isAbsolute_append (mt hstem.mp hempty)]
    exact iff_of_false hrelative fun h => hempty h.1

theorem up_mem_folders (h : root.FiledIn dir) (hflat : config.flattenOutput = false) :
    ".." ∈ (split '/' (stem config root)).dropLast ↔
      .up ∈ (Path.components ⟨root.file.relative⟩).dropLast := by
  have hinner := isInner_file h
  rw [stem, if_neg (Bool.eq_false_iff.mp hflat),
    Path.up_mem_dropLast_split (Path.isInner_withoutExtension hinner),
    Path.dropLast_withoutExtension hinner]

theorem staysBelow_outputPath (h : root.FiledIn dir) :
    (Path.mk (outputPath config root)).StaysBelow ↔ KeepsBelow config root := by
  have hup : .up ∈ (Path.mk (outputPath config root)).components ↔ _ :=
    Path.up_mem_components.trans (Path.up_mem_split_append (x := stem config root))
  cases hflat : config.flattenOutput with
  | true =>
    have hpath : outputPath config root = root.name ++ config.outputSuffix := by
      simp [outputPath, hflat]
    have hstem : stem config root = root.name := by simp [stem, hflat]
    constructor
    · rintro ⟨hrelative, hnone⟩
      rw [hup, not_or, not_or] at hnone
      obtain ⟨hfolders, hname, hsuffix⟩ := hnone
      exact ⟨fun _ => ⟨hpath ▸ hrelative, hstem ▸ hfolders⟩, by simp [hflat], hname, hsuffix⟩
    · rintro ⟨hside, -, hname, hsuffix⟩
      obtain ⟨hrelative, hfolders⟩ := hside hflat
      refine ⟨hpath ▸ hrelative, ?_⟩
      rw [hup, not_or, not_or]
      exact ⟨hstem ▸ hfolders, hname, hsuffix⟩
  | false =>
    constructor
    · rintro ⟨hrelative, hnone⟩
      rw [isAbsolute_besideFile h hflat, not_and] at hrelative
      rw [hup, not_or, not_or, up_mem_folders h hflat] at hnone
      obtain ⟨hfolders, hname, hsuffix⟩ := hnone
      exact ⟨by simp [hflat], fun _ => ⟨hrelative, hfolders⟩, hname, hsuffix⟩
    · rintro ⟨-, hfile, hname, hsuffix⟩
      obtain ⟨hrelative, hfolders⟩ := hfile hflat
      refine ⟨?_, ?_⟩
      · rwa [isAbsolute_besideFile h hflat, not_and]
      · rw [hup, not_or, not_or, up_mem_folders h hflat]
        exact ⟨hfolders, hname, hsuffix⟩

end Diagram

namespace Generation

open Hierarchy

/-- The documents of a pass stay below the output directory exactly where nothing that
their paths are put together from leads out. Those that stay, and are not nothing but
slashes and points, are files below it on every disk. -/
theorem run_stays_below (h : run config project check = .ok gen) :
    ∃ r, register project check = .ok r ∧
      gen.diagrams.map (·.path) =
        (drawnRoots config.diagram (wired config r)).map (Diagram.outputPath config.diagram) ∧
      ∀ root ∈ drawnRoots config.diagram (wired config r),
        ((Path.mk (Diagram.outputPath config.diagram root)).StaysBelow ↔
          Diagram.KeepsBelow config.diagram root) ∧
        ((Path.mk (Diagram.outputPath config.diagram root)).StaysBelow →
          (Path.mk (Diagram.outputPath config.diagram root)).HasStep →
          ∃ below : Place, below ≠ [] ∧ ∀ (disk : Disk) (dir : Path),
            disk.destination (dir.resolve ⟨Diagram.outputPath config.diagram root⟩) =
              disk.destination dir ++ below) := by
  obtain ⟨r, hr, -, rfl⟩ := run_ok h
  refine ⟨r, hr, by simp [draw, Diagram.ofRoot, Function.comp_def], fun root hroot => ?_⟩
  have hfiled := filedIn_wired (register_built hr) (mem_drawnRoots hroot)
  exact ⟨Diagram.staysBelow_outputPath hfiled,
    fun hstays hstep => hstays.exists_below hstep⟩

def sharedProject : Project where
  dir := ⟨"/game"⟩
  declarations :=
    [{ name := "Shared", kind := .classType, file := ⟨"/lib/Shared.cs"⟩ },
      { name := "Gen", kind := .classType, file := ⟨"Tools/./Gen.cs"⟩ }]

theorem run_stays_below_shared : ∃ gen, run {} sharedProject (.ok ()) = .ok gen ∧
    gen.diagrams.map (·.path) = ["lib/Shared.g.puml", "Tools/Gen.g.puml"] ∧
    ∀ d ∈ gen.diagrams, (Path.mk d.path).StaysBelow ∧ ∃ below : Place, below ≠ [] ∧
      ∀ (disk : Disk) (dir : Path),
        disk.destination (dir.resolve ⟨d.path⟩) = disk.destination dir ++ below := by
  have hpaths : (run {} sharedProject (.ok ())).toOption.map (·.diagrams.map (·.path)) =
      some ["lib/Shared.g.puml", "Tools/Gen.g.puml"] := by decide +kernel
  have hkeeps : (register sharedProject (.ok ())).toOption.map (fun r =>
      (drawnRoots {} (wired {} r)).all fun n => decide (Diagram.KeepsBelow {} n)) = some true := by
    decide +kernel
  obtain ⟨gen, hrun, hpaths⟩ := toOption_map_eq_some.mp hpaths
  obtain ⟨r, hr, hkeeps⟩ := toOption_map_eq_some.mp hkeeps
  obtain ⟨r', hr', hroots, hbelow⟩ := run_stays_below hrun
  obtain rfl : r = r' := Except.ok.inj (hr.symm.trans hr')
  refine ⟨gen, hrun, hpaths, fun d hd => ?_⟩
  have hpath := List.mem_map_of_mem (f := Diagram.path) hd
  rw [hroots] at hpath
  obtain ⟨root, hroot, heq⟩ := List.mem_map.mp hpath
  have hkeep := of_decide_eq_true (List.all_eq_true.mp hkeeps root hroot)
  have hstays := (hbelow root hroot).1.mpr hkeep
  rw [← heq]
  exact ⟨hstays, (hbelow root hroot).2 hstays (Path.hasStep_append _ ⟨by decide, by decide⟩)⟩

def besideProject : Project where
  dir := ⟨"/game"⟩
  declarations := [{ name := "Util", kind := .classType, file := ⟨"../Shared/Util.cs"⟩ }]

theorem not_run_stays_below : ¬ ∀ (config : Config) (project : Project)
    (check : Except Failure Unit) (gen : Generation), run config project check = .ok gen →
    ∀ d ∈ gen.diagrams, (Path.mk d.path).StaysBelow := by
  intro h
  have hpaths : (run {} besideProject (.ok ())).toOption.map (·.diagrams.map (·.path)) =
      some ["../Shared/Util.g.puml"] := by decide +kernel
  obtain ⟨gen, hrun, hpaths⟩ := toOption_map_eq_some.mp hpaths
  have hmem : "../Shared/Util.g.puml" ∈ gen.diagrams.map (·.path) := by simp [hpaths]
  obtain ⟨d, hd, heq⟩ := List.mem_map.mp hmem
  have hup := (h {} besideProject (.ok ()) gen hrun d hd).noUp
  rw [heq] at hup
  exact hup (by decide +kernel)

end Generation

end SceneDiagram
