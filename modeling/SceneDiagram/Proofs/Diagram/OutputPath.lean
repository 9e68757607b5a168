import SceneDiagram.Proofs.Disk
import SceneDiagram.Proofs.Generation
import SceneDiagram.Proofs.Hierarchy.Origin

/-!
# Paths of documents

`run_paths_differ`: the documents of a pass have paths of their own, unless two
roots may clash: side by side by a name that holds a slash, and beside files that
differ in their extensions alone by a scene that is not called like its file.
Nothing else keeps such documents apart (`not_run_paths_differ`).
-/

namespace SceneDiagram

namespace Hierarchy.Node

variable {dir : Path} {a b n : Node}

/-- The document of the node may not be called like the node: a scene whose file
has another name, or a node with a name that is a step of its own. -/
def Strays (n : Node) : Prop :=
  n.isScene ∧ n.file.absolute.stem? ≠ some n.name ∨ n.name = "." ∨ n.name = ".."

instance : Decidable n.Strays :=
  inferInstanceAs (Decidable (n.isScene ∧ n.file.absolute.stem? ≠ some n.name ∨ _ ∨ _))

/-- The documents of two roots may come to one path. -/
def MayClash (config : DiagramConfig) (a b : Node) : Prop :=
  if config.flattenOutput then '/' ∈ a.name.toList ∨ '/' ∈ b.name.toList
  else Path.withoutExtension ⟨a.file.relative⟩ = Path.withoutExtension ⟨b.file.relative⟩ ∧
    (a.Strays ∨ b.Strays)

theorem FiledIn.stem?_eq (h : n.FiledIn dir) (hn : ¬ n.Strays) :
    n.file.absolute.stem? = some n.name := by
  obtain ⟨file, hfile, hscene | hcode⟩ := h
  · exact Classical.byContradiction fun hstem => hn (.inl ⟨hscene, hstem⟩)
  · obtain ⟨hstem, -⟩ := Option.filter_eq_some_iff.mp hcode
    obtain ⟨s, hs, hname⟩ := Option.map_eq_some_iff.mp hstem
    rw [hfile, FileRef.inProject, Path.stem?, Path.fileName?_resolve hs dir, Option.map_some, hname]

/-- Without its extension, the file of a node that does not stray ends with the
name of the node, or else it is called like the project. -/
theorem FiledIn.getLast?_withoutExtension (h : n.FiledIn dir) (hn : ¬ n.Strays) :
    (Path.withoutExtension ⟨n.file.relative⟩).getLast? = some (.name n.name) ∨
      Path.withoutExtension ⟨n.file.relative⟩ = [] ∧ dir.stem? = some n.name := by
  obtain ⟨s, hs, hname⟩ := Option.map_eq_some_iff.mp (h.stem?_eq hn)
  obtain ⟨file, hfile, -⟩ := h
  rw [hfile] at hs ⊢
  rcases FileRef.fileName?_relativeTo hs with hlast | ⟨hnil, hdir⟩
  · refine .inl ?_
    have hhere : (Path.cutExtension s).1 ≠ "." := fun h => hn (.inr (.inl (hname ▸ h)))
    have hup : (Path.cutExtension s).1 ≠ ".." := fun h => hn (.inr (.inr (hname ▸ h)))
    rw [← hname]
    exact Path.getLast?_withoutExtension hlast hhere hup
  · refine .inr ⟨?_, by rw [Path.stem?, hdir, Option.map_some, hname]⟩
    simp [Path.withoutExtension, FileRef.inProject, hnil]

theorem FiledIn.withoutExtension_ne (ha : a.FiledIn dir) (hb : b.FiledIn dir)
    (hname : a.name ≠ b.name) (hstray : ¬ (a.Strays ∨ b.Strays)) :
    Path.withoutExtension ⟨a.file.relative⟩ ≠ Path.withoutExtension ⟨b.file.relative⟩ := by
  obtain ⟨has, hbs⟩ := not_or.mp hstray
  intro hsame
  rcases ha.getLast?_withoutExtension has with ha | ⟨ha, hadir⟩ <;>
    rcases hb.getLast?_withoutExtension hbs with hb | ⟨hb, hbdir⟩
  · rw [hsame, hb] at ha
    simp [Ne.symm hname] at ha
  · rw [hsame, hb] at ha
    cases ha
  · rw [← hsame, ha] at hb
    cases hb
  · exact hname (Option.some.inj (hadir.symm.trans hbdir))

end Hierarchy.Node

namespace Diagram

open Hierarchy

variable {config : DiagramConfig} {dir : Path} {a b : Node}

theorem isInner_withoutExtension_file (h : a.FiledIn dir) :
    ∀ c ∈ Path.withoutExtension ⟨a.file.relative⟩, c.IsInner := by
  obtain ⟨file, hfile, -⟩ := h
  rw [hfile]
  exact Path.isInner_withoutExtension (FileRef.isInner_of_mem_relative dir file)

theorem outputPath_ne (hflat : config.flattenOutput) (hname : a.name ≠ b.name) :
    outputPath config a ≠ outputPath config b := by
  simpa [outputPath, hflat] using hname

/-- Two paths differ, and lead to different places below any directory of a disk
if they are plain. -/
def Apart (s t : String) : Prop :=
  ¬ (Path.mk s).same ⟨t⟩ ∧ ((Path.mk s).IsPlain → (Path.mk t).IsPlain →
    ∀ (disk : Disk) (base : Path),
      disk.destination (base.resolve ⟨s⟩) ≠ disk.destination (base.resolve ⟨t⟩))

theorem mayClash_of_same (ha : a.FiledIn dir) (hb : b.FiledIn dir) (hname : a.name ≠ b.name)
    (h : (Path.mk (outputPath config a)).same ⟨outputPath config b⟩) :
    Node.MayClash config a b := by
  unfold Node.MayClash
  unfold outputPath at h
  split
  · next hflat =>
    simp only [hflat, if_true] at h
    by_contra hslash
    obtain ⟨haslash, hbslash⟩ := not_or.mp hslash
    exact hname (Path.same_append (Path.isTidy_of_noSlash haslash)
      (Path.isTidy_of_noSlash hbslash) h)
  · next hflat =>
    simp only [hflat, Bool.false_eq_true, if_false] at h
    have hainner := isInner_withoutExtension_file ha
    have hbinner := isInner_withoutExtension_file hb
    have htext := Path.same_append (Path.isTidy_slashed hainner) (Path.isTidy_slashed hbinner) h
    have hsame : Path.withoutExtension ⟨a.file.relative⟩ =
        Path.withoutExtension ⟨b.file.relative⟩ := by
      rw [← Path.trail_slashed hainner, htext, Path.trail_slashed hbinner]
    exact ⟨hsame, Classical.byContradiction fun hstray =>
      ha.withoutExtension_ne hb hname hstray hsame⟩

end Diagram

namespace Generation

open Hierarchy

theorem filedIn_wired {r : Registry} (h : r.Built) (hn : n ∈ (wired config r).nodes) :
    n.FiledIn r.dir := by
  obtain ⟨settled, hsettled, hedges⟩ := Graph.exists_of_mem_wire hn
  obtain ⟨m, hm, rfl⟩ := List.mem_map.mp hsettled
  -- Settling and wiring touch neither the file nor the name nor the origin.
  have hfields : m.file = n.file ∧ m.name = n.name ∧ m.isScene = n.isScene :=
    ⟨congrArg (·.file) hedges, congrArg (·.name) hedges, congrArg (·.isScene) hedges⟩
  obtain ⟨hfile, hname, hscene⟩ := hfields
  rw [Node.FiledIn, ← hfile, ← hname, ← hscene]
  exact h.filed m hm

/-- Side by side the documents of a pass have paths of their own as texts. As paths
they are different where the roots may not clash, so plain ones are written to
places of their own, whatever the output directory. -/
theorem run_paths_differ (h : run config project check = .ok gen) :
    ∃ r, register project check = .ok r ∧
      gen.diagrams.map (·.path) =
        (drawnRoots config.diagram (wired config r)).map (Diagram.outputPath config.diagram) ∧
      (drawnRoots config.diagram (wired config r)).Pairwise fun a b =>
        (config.diagram.flattenOutput →
          Diagram.outputPath config.diagram a ≠ Diagram.outputPath config.diagram b) ∧
        (¬ Node.MayClash config.diagram a b →
          Diagram.Apart (Diagram.outputPath config.diagram a)
            (Diagram.outputPath config.diagram b)) := by
  obtain ⟨r, hr, -, rfl⟩ := run_ok h
  have hbuilt := register_built hr
  have hproper := (hbuilt.unwired_graph config.analysis.interfacePrefix).proper_wire config.analysis
  refine ⟨r, hr, by simp [draw, Diagram.ofRoot, Function.comp_def], ?_⟩
  have hnames : (drawnRoots config.diagram (wired config r)).Pairwise fun a b => a.name ≠ b.name :=
    (List.pairwise_map.mp hproper.nodup).sublist
      (List.filter_sublist.trans List.filter_sublist)
  refine hnames.imp_of_mem fun {a b} ha hb hname =>
    ⟨fun hflat => Diagram.outputPath_ne hflat hname, fun hclash => ?_⟩
  have hdiffer : ¬ (Path.mk (Diagram.outputPath config.diagram a)).same
      ⟨Diagram.outputPath config.diagram b⟩ := fun hsame =>
    hclash (Diagram.mayClash_of_same (filedIn_wired hbuilt (mem_drawnRoots ha))
      (filedIn_wired hbuilt (mem_drawnRoots hb)) hname hsame)
  exact ⟨hdiffer, fun haplain hbplain => Disk.destination_ne haplain hbplain hdiffer⟩

def asideProject : Project where
  dir := ⟨"/game"⟩
  scenes := [⟨⟨"Game/Main.tscn"⟩, "[node name=\"Main\" type=\"Node\"]\n"⟩]
  declarations := [{ name := "Util", kind := .classType, file := ⟨"Game/Util.cs"⟩ }]

theorem run_paths_differ_aside : ∃ gen, run {} asideProject (.ok ()) = .ok gen ∧
    gen.diagrams.map (·.path) = ["Game/Main.g.puml", "Game/Util.g.puml"] ∧
    (gen.diagrams.map (·.path)).Pairwise Diagram.Apart := by
  have hpaths : (run {} asideProject (.ok ())).toOption.map (·.diagrams.map (·.path)) =
      some ["Game/Main.g.puml", "Game/Util.g.puml"] := by decide +kernel
  have hstrays : (register asideProject (.ok ())).toOption.map (fun r =>
      (drawnRoots {} (wired {} r)).any fun n => n.Strays) = some false := by decide +kernel
  cases hrun : run {} asideProject (.ok ()) with
  | error e => simp [hrun, Except.toOption] at hpaths
  | ok gen =>
    obtain ⟨r, hr, hroots, hapart⟩ := run_paths_differ hrun
    rw [hrun] at hpaths
    have hnone : ∀ n ∈ drawnRoots {} (wired {} r), ¬ n.Strays := by
      simpa [hr, Except.toOption] using hstrays
    refine ⟨gen, rfl, Option.some.inj hpaths, ?_⟩
    rw [hroots, List.pairwise_map]
    refine hapart.imp_of_mem fun ha hb hpair => hpair.2 ?_
    rintro ⟨-, hstray⟩
    exact hstray.elim (hnone _ ha) (hnone _ hb)

/-- A scene called unlike its file, beside a source file called like it. -/
def clashingProject : Project where
  dir := ⟨"/game"⟩
  scenes := [⟨⟨"Game/Game.tscn"⟩, "[node name=\"Main\" type=\"Node\"]\n"⟩]
  declarations := [{ name := "Game", kind := .classType, file := ⟨"Game/Game.cs"⟩ }]

theorem not_run_paths_differ : ¬ ∀ (config : Config) (project : Project)
    (check : Except Failure Unit) (gen : Generation), run config project check = .ok gen →
    gen.diagrams.Pairwise fun a b => a.path ≠ b.path := by
  intro h
  have hpaths : (run {} clashingProject (.ok ())).toOption.map (·.diagrams.map (·.path)) =
      some ["Game/Game.g.puml", "Game/Game.g.puml"] := by decide +kernel
  cases hrun : run {} clashingProject (.ok ()) with
  | error e => simp [hrun, Except.toOption] at hpaths
  | ok gen =>
    rw [hrun] at hpaths
    have hsame : gen.diagrams.map (·.path) = ["Game/Game.g.puml", "Game/Game.g.puml"] :=
      Option.some.inj hpaths
    have hdiffer : (gen.diagrams.map (·.path)).Pairwise (· ≠ ·) :=
      List.pairwise_map.mpr (h {} clashingProject (.ok ()) gen hrun)
    rw [hsame] at hdiffer
    simp at hdiffer

end Generation

end SceneDiagram
