import SceneDiagram.Generation
import SceneDiagram.Proofs.Basic
import SceneDiagram.Proofs.Diagram.Unfolding
import SceneDiagram.Proofs.Hierarchy.Cycle

/-!
# What a pass draws

`run_unfolds`: a pass that succeeds draws for every root the unfolding of the
graph from there and, unless roots have to opt in, leaves no node out.
-/

namespace SceneDiagram.Generation

open Hierarchy

-- ---------------------------------------------------------------------------
-- Registering
-- ---------------------------------------------------------------------------

/-- What scenes and warnings preserve holds once all scenes are registered. -/
theorem addSources_induction {P : Registry → Prop} {sources : List SceneSource}
    {check : Except Failure Unit} (hwarn : ∀ r w, P r → P (r.warn w))
    (hscene : ∀ r path scene, P r → P (r.addScene path scene)) (hr : P r)
    (h : sources.foldlM (fun r source => do check; addSource r source) r = .ok r₁) : P r₁ := by
  induction sources generalizing r with
  | nil =>
    cases h
    exact hr
  | cons source sources ih =>
    rw [List.foldlM_cons, bind_ok] at h
    obtain ⟨r₂, h₂, h⟩ := h
    obtain ⟨-, -, h₂⟩ := bind_ok.mp h₂
    refine ih ?_ h
    unfold addSource at h₂
    split at h₂
    · cases h₂
    · next scene diagnostics _ =>
      cases h₂
      refine hscene _ _ _ ?_
      exact List.foldlRecOn diagnostics _ hr fun r hr d _ => hwarn r _ hr

theorem register_cases {P : Registry → Prop} (h : register project check = .ok r)
    (hempty : P { dir := project.dir }) (hwarn : ∀ r w, P r → P (r.warn w))
    (hscene : ∀ r path scene, P r → P (r.addScene path scene)) :
    ∃ r₁, P r₁ ∧ r = r₁.addDeclarations project.declarations := by
  obtain ⟨r₁, h₁, h⟩ := bind_ok.mp h
  cases h
  exact ⟨r₁, addSources_induction hwarn hscene hempty h₁, rfl⟩

theorem register_built (h : register project check = .ok r) : r.Built := by
  obtain ⟨r₁, h₁, rfl⟩ := register_cases (P := Registry.Built) h (.empty _) (fun _ w hr => hr.warn w)
    fun _ path scene hr => hr.addScene path scene
  exact h₁.addDeclarations _

theorem dir_register (h : register project check = .ok r) : r.dir = project.dir := by
  obtain ⟨r₁, h₁, rfl⟩ := register_cases (P := fun r => r.dir = project.dir) h rfl
    (fun _ _ hr => hr) fun r path scene hr => (r.dir_addScene path scene).trans hr
  exact (Registry.dir_addDeclarations r₁ _).trans h₁

-- ---------------------------------------------------------------------------
-- Drawing
-- ---------------------------------------------------------------------------

def wired (config : Config) (r : Registry) : Graph :=
  (r.graph config.analysis.interfacePrefix).wire config.analysis

def blocksOf (config : Config) (project : Project) (graph : Graph) (root : Node) : List Block :=
  let base := Path.wayTo project.target project.dir
  let drawing : Drawing :=
    ⟨graph, Diagram.linkStyle config.diagram root base, config.analysis.interfacePrefix⟩
  drawing.blocks root

theorem run_ok (h : run config project check = .ok gen) : ∃ r, register project check = .ok r ∧
    (wired config r).cycle? = none ∧
    gen = ⟨draw config project (wired config r), r.warnings⟩ := by
  simp only [run, bind_ok] at h
  obtain ⟨r, hr, -, -, h⟩ := h
  split at h
  · cases h
  · next hc =>
    cases h
    exact ⟨r, hr, hc, rfl⟩

theorem run_of_registered (hr : register p (.ok ()) = .ok r)
    (hc : (wired config r).cycle? = none) :
    run config p (.ok ()) = .ok ⟨draw config p (wired config r), r.warnings⟩ := by
  rw [wired] at hc
  simp only [run, hr, bind, Except.bind, hc]
  rfl

theorem mem_drawnRoots (h : root ∈ drawnRoots config graph) : root ∈ graph.nodes :=
  (List.mem_filter.mp (List.mem_filter.mp h).1).1

theorem mem_drawnRoots_of_isRoot (hopt : config.requireOptIn = false) (h : root ∈ graph.nodes)
    (hr : root.isRoot) : root ∈ drawnRoots config graph :=
  List.mem_filter.mpr ⟨List.mem_filter.mpr ⟨h, hr⟩, by rw [hopt]; rfl⟩

theorem mem_names_wired {r : Registry} (config : Config) (hn : n ∈ r.nodes) :
    n.name ∈ (wired config r).names := by
  rw [Graph.names, wired, Graph.names_wire, Registry.graph, List.map_map]
  exact List.mem_map_of_mem hn

/-- Each document unfolds the graph from its root, and no node is lost. -/
theorem run_unfolds (h : run config project check = .ok gen) :
    ∃ r, register project check = .ok r ∧
      gen.diagrams = (drawnRoots config.diagram (wired config r)).map (fun root =>
        { path := Diagram.outputPath config.diagram root
          name := root.name
          text := documentText (blocksOf config project (wired config r) root) }) ∧
      (∀ root ∈ drawnRoots config.diagram (wired config r), Drawing.Unfolds (wired config r) root
        (partsOfAll (blocksOf config project (wired config r) root))) ∧
      (config.diagram.requireOptIn = false → ∀ n ∈ r.nodes,
        ∃ root ∈ drawnRoots config.diagram (wired config r), ∃ c : ClassBlock,
          c.name = n.name ∧
          .classBlock c ∈ partsOfAll (blocksOf config project (wired config r) root)) := by
  obtain ⟨r, hr, hc, rfl⟩ := run_ok h
  have hu := (register_built hr).unwired_graph config.analysis.interfacePrefix
  have hg : (wired config r).Proper := hu.proper_wire config.analysis
  have hacyclic : (wired config r).Acyclic := hg.cycle?_none hc
  have hunfolds : ∀ root ∈ (wired config r).nodes, Drawing.Unfolds (wired config r) root
      (partsOfAll (blocksOf config project (wired config r) root)) :=
    fun root hroot => Drawing.unfolds_blocks (w := ⟨_, _, _⟩) hg hacyclic hroot
  refine ⟨r, hr, rfl, fun root hroot => hunfolds root (mem_drawnRoots hroot), fun hopt n hn => ?_⟩
  obtain ⟨m, hm, hname⟩ := List.mem_map.mp (mem_names_wired config hn)
  obtain ⟨root, hroot, hisRoot, way, hway⟩ := hg.exists_root hacyclic hm
  rw [hname] at hway
  exact ⟨root, mem_drawnRoots_of_isRoot hopt hroot hisRoot, (hunfolds root hroot).exists_class hway⟩

def levelProject : Project where
  dir := ⟨"/p"⟩
  declarations := [
    { name := "Level", kind := .classType, file := ⟨"/p/Level.cs"⟩,
      members := [.property "player" "Player"] },
    { name := "Player", kind := .classType, file := ⟨"/p/Player.cs"⟩ }]

theorem run_unfolds_level : ∃ gen r, run {} levelProject (.ok ()) = .ok gen ∧
    register levelProject (.ok ()) = .ok r ∧ gen.diagrams.map (·.name) = ["Level"] ∧
    ∀ root ∈ drawnRoots {} (wired {} r),
      Drawing.Unfolds (wired {} r) root (partsOfAll (blocksOf {} levelProject (wired {} r) root)) := by
  have hnames : (run {} levelProject (.ok ())).toOption.map (·.diagrams.map (·.name)) =
      some ["Level"] := by decide +kernel
  cases hrun : run {} levelProject (.ok ()) with
  | error e => simp [hrun, Except.toOption] at hnames
  | ok gen =>
    obtain ⟨r, hr, -, hunfolds, -⟩ := run_unfolds hrun
    rw [hrun] at hnames
    exact ⟨gen, r, rfl, hr, Option.some.inj hnames, hunfolds⟩

end SceneDiagram.Generation
