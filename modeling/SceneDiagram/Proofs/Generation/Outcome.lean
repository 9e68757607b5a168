import SceneDiagram.Proofs.Generation.Reordering
import SceneDiagram.Proofs.Hierarchy.Registration
import SceneDiagram.Proofs.Scene.FileOrder

/-!
# The outcome of a pass

`run_outcome`: a pass that nobody cancels fails at the first malformed scene, else on a
cycle, else draws one document for each root, with the warnings in the order of the
inputs. Every input is registered by the same step, so what a registry holds and warns of
is carried along the scenes and the groups alike (`holds_foldl_take`).
-/

open Relation (TransGen)

namespace SceneDiagram.Generation

open Hierarchy Registry

-- ---------------------------------------------------------------------------
-- Inputs
-- ---------------------------------------------------------------------------

def readInput? (source : SceneSource) : Option (Input × List Warning) :=
  match Scene.read source.text with
  | .ok (scene, diagnostics) =>
    some (.scene source.path scene, diagnostics.map (.scene source.path source.text))
  | .error _ => none

def groupInputs (ds : List Declaration) : List (Input × List Warning) :=
  (Group.ofDeclarations ds).map fun g => (.group g, [])

/-- What asks for names in a pass: the scenes in their order, then the groups of
declarations in the order in which their files first appear. -/
def inputs (project : Project) : List (Input × List Warning) :=
  project.scenes.filterMap readInput? ++ groupInputs project.declarations

def warningsAfter (dir : Path) (earlier : List Input) : List (Input × List Warning) → List Warning
  | [] => []
  | (i, own) :: rest =>
    own ++ (warning? dir earlier i).toList ++ warningsAfter dir (earlier ++ [i]) rest

def take (r : Registry) (i : Input × List Warning) : Registry := (i.2.foldl warn r).add i.1

variable {dir : Path} {earlier : List Input} {r : Registry} {project : Project}

theorem foldl_warn_id (ws : List Warning) (r : Registry) :
    ws.foldl warn r = { r with warnings := r.warnings ++ ws } := by
  have h := Registry.foldl_warn id ws r
  rwa [List.map_id] at h

theorem holds_take {i : Input × List Warning} (h : Holds dir earlier r) (hi : i.1.Filled) :
    Holds dir (earlier ++ [i.1]) (take r i) ∧
      (take r i).warnings = r.warnings ++ (i.2 ++ (warning? dir earlier i.1).toList) := by
  have hwarned : Holds dir earlier (i.2.foldl warn r) := by
    rw [foldl_warn_id]
    exact ⟨h.names, h.files, h.awaits, h.dir⟩
  have hown : (i.2.foldl warn r).warnings = r.warnings ++ i.2 := by rw [foldl_warn_id]
  obtain ⟨hholds, hwarnings⟩ := hwarned.add hi
  rw [hown, List.append_assoc] at hwarnings
  exact ⟨hholds, hwarnings⟩

theorem holds_foldl_take (h : Holds dir earlier r) (l : List (Input × List Warning))
    (hl : ∀ i ∈ l, i.1.Filled) : Holds dir (earlier ++ l.map (·.1)) (l.foldl take r) ∧
      (l.foldl take r).warnings = r.warnings ++ warningsAfter dir earlier l := by
  induction l generalizing r earlier with
  | nil => exact ⟨by simpa using h, (List.append_nil _).symm⟩
  | cons i l ih =>
    rw [List.forall_mem_cons] at hl
    obtain ⟨hi, hwarnings⟩ := holds_take h hl.1
    obtain ⟨hrest, hmore⟩ := ih hi hl.2
    refine ⟨by simpa using hrest, ?_⟩
    rw [List.foldl_cons, hmore, hwarnings, warningsAfter, List.append_assoc, List.append_assoc]

theorem addSource_eq_take (hread : readInput? source = some i) :
    addSource r source = .ok (take r i) := by
  unfold readInput? at hread
  split at hread
  · next scene diagnostics hscene =>
    cases hread
    rw [addSource, hscene, take, List.foldl_map]
    rfl
  · cases hread

theorem addSources_eq_take {sources : List SceneSource}
    (h : ∀ source ∈ sources, (readInput? source).isSome) :
    sources.foldlM addSource r = .ok ((sources.filterMap readInput?).foldl take r) := by
  induction sources generalizing r with
  | nil => rfl
  | cons source sources ih =>
    rw [List.forall_mem_cons] at h
    obtain ⟨i, hi⟩ := Option.isSome_iff_exists.mp h.1
    rw [List.foldlM_cons, addSource_eq_take hi, List.filterMap_cons_some hi]
    exact ih h.2

theorem addGroups_eq_take (ds : List Declaration) :
    (groupInputs ds).foldl take r = (Group.ofDeclarations ds).foldl addGroup r := by
  rw [groupInputs, List.foldl_map]
  rfl

theorem filled_inputs (project : Project) : ∀ i ∈ inputs project, i.1.Filled := by
  intro i hi
  rcases List.mem_append.mp hi with hi | hi
  · obtain ⟨source, -, hread⟩ := List.mem_filterMap.mp hi
    unfold readInput? at hread
    split at hread
    · cases hread
      trivial
    · cases hread
  · obtain ⟨g, hg, rfl⟩ := List.mem_map.mp hi
    exact Group.declarations_ne_nil hg

theorem register_holds (h : ∀ source ∈ project.scenes, (readInput? source).isSome) :
    ∃ r, register project (.ok ()) = .ok r ∧
      Holds project.dir ((inputs project).map (·.1)) r ∧
      r.warnings = warningsAfter project.dir [] (inputs project) := by
  have hholds := holds_foldl_take (.empty project.dir) (inputs project) (filled_inputs project)
  refine ⟨_, ?_, hholds⟩
  rw [register_eq, addSources_eq_take h, inputs, List.foldl_append, addGroups_eq_take]
  rfl

-- ---------------------------------------------------------------------------
-- The first malformed scene
-- ---------------------------------------------------------------------------

theorem run_of_malformed (hscenes : project.scenes = before ++ source :: after)
    (hbefore : ∀ s ∈ before, (readInput? s).isSome) (hcause : Scene.read source.text = .error cause)
    (config : Config) :
    run config project (.ok ()) = .error (.malformed cause source.text source.path) := by
  have hadd (r : Registry) : addSource r source =
      .error (.malformed cause source.text source.path) := by
    rw [addSource, hcause]
  have hregister : register project (.ok ()) =
      .error (.malformed cause source.text source.path) := by
    rw [register_eq, hscenes, List.foldlM_append, addSources_eq_take hbefore]
    change List.foldlM addSource _ (source :: after) >>= _ = _
    rw [List.foldlM_cons, hadd]
    rfl
  rw [run, hregister]
  rfl

-- ---------------------------------------------------------------------------
-- The outcome
-- ---------------------------------------------------------------------------

/-- The nodes that a document is drawn for: those that no node holds and, where roots
opt in, whose backing type has the marker. -/
def documented (config : DiagramConfig) (graph : Graph) : List Node :=
  graph.nodes.filter fun n => (graph.holders n.name).isEmpty &&
    (!config.requireOptIn || (n.backing?.bind (·.marker)).isSome)

structure Outcome (config : Config) (project : Project) (result : Except Failure Generation) :
    Prop where
  malformed : project.scenes = before ++ source :: after →
    (∀ s ∈ before, (Scene.read s.text).isOk) → Scene.read source.text = .error cause →
    result = .error (.malformed cause source.text source.path)
  wellFormed : (∀ s ∈ project.scenes, (Scene.read s.text).isOk) →
    ∃ r, register project (.ok ()) = .ok r ∧
      (wired config r).names = ((inputs project).filterMap (·.1.name?)).eraseDups ∧
      (¬ (wired config r).Acyclic →
        ∃ name, TransGen (wired config r).Child name name ∧ result = .error (.cycle name)) ∧
      ((wired config r).Acyclic → result = .ok
        { diagrams := (documented config.diagram (wired config r)).map
            (Diagram.ofRoot (wired config r) config (Path.wayTo project.target project.dir))
          warnings := warningsAfter project.dir [] (inputs project) })
  inFileOrder : ∀ s ∈ project.scenes, Scene.read s.text = .ok (scene, diagnostics) →
    Diagnostic.InFileOrder diagnostics

theorem isSome_readInput? (source : SceneSource) :
    (readInput? source).isSome = (Scene.read source.text).isOk := by
  unfold readInput?
  cases Scene.read source.text <;> rfl

theorem drawnRoots_eq_documented {g : Graph} (hg : g.Proper) (config : DiagramConfig) :
    drawnRoots config g = documented config g := by
  rw [drawnRoots, Graph.roots, List.filter_filter, documented]
  refine List.filter_congr fun n hn => ?_
  have hroot : n.isRoot = (g.holders n.name).isEmpty := by
    rw [Bool.eq_iff_iff, hg.root n hn, Graph.holders, List.isEmpty_iff, List.map_eq_nil_iff,
      List.filter_eq_nil_iff]
  rw [hroot, Node.marker?, Bool.and_comm]

theorem run_of_wellFormed (h : ∀ s ∈ project.scenes, (readInput? s).isSome) (config : Config) :
    ∃ r, register project (.ok ()) = .ok r ∧
      (wired config r).names = ((inputs project).filterMap (·.1.name?)).eraseDups ∧
      (¬ (wired config r).Acyclic → ∃ name, TransGen (wired config r).Child name name ∧
        run config project (.ok ()) = .error (.cycle name)) ∧
      ((wired config r).Acyclic → run config project (.ok ()) = .ok
        { diagrams := (documented config.diagram (wired config r)).map
            (Diagram.ofRoot (wired config r) config (Path.wayTo project.target project.dir))
          warnings := warningsAfter project.dir [] (inputs project) }) := by
  obtain ⟨r, hr, hholds, hwarnings⟩ := register_holds h
  have hproper : (wired config r).Proper :=
    ((register_built hr).unwired_graph config.analysis.interfacePrefix).proper_wire config.analysis
  refine ⟨r, hr, ?_, fun hcyclic => ?_, fun hacyclic => ?_⟩
  · rw [Graph.names, wired, Graph.names_wire, Registry.graph, List.map_map]
    exact hholds.names.trans (by rw [List.filterMap_map]; rfl)
  · cases hc : (wired config r).cycle? with
    | none => exact absurd (hproper.cycle?_none hc) hcyclic
    | some name => exact ⟨name, hproper.cycle?_some hc, run_of_cycle hr hc⟩
  · have hc : (wired config r).cycle? = none :=
      Option.eq_none_iff_forall_ne_some.mpr fun name hname =>
        hacyclic name (hproper.cycle?_some hname)
    rw [run_of_registered hr hc, draw, drawnRoots_eq_documented hproper, hwarnings]

/-- Every pass that is not cancelled has one outcome. -/
theorem run_outcome (config : Config) (project : Project) (signals : Signals) (token : CancelToken)
    (h : signals.isCancelled token = false) :
    Outcome config project (run config project (signals.check token)) := by
  have hcheck : signals.check token = .ok () := by rw [Signals.check, h]; rfl
  rw [hcheck]
  refine ⟨fun hscenes hbefore hcause => ?_, fun hreads => ?_, fun s hs hread => ?_⟩
  · simp only [← isSome_readInput?] at hbefore
    exact run_of_malformed hscenes hbefore hcause config
  · simp only [← isSome_readInput?] at hreads
    exact run_of_wellFormed hreads config
  · exact Scene.inFileOrder hread

/-- A level, a scene without a root, and another scene with the name of the level. -/
def crowdedProject : Project where
  dir := ⟨"/p"⟩
  scenes := [levelScene, ⟨⟨"/p/Empty.tscn"⟩, "[gd_scene]"⟩,
    ⟨⟨"/p/b/Level.tscn"⟩, "[node name=\"Level\" type=\"Node\"]"⟩]
  declarations := [level, otherLevel]

theorem run_outcome_crowded :
    Signals.isCancelled {} ⟨0⟩ = false ∧
      Outcome {} crowdedProject (run {} crowdedProject (Signals.check {} ⟨0⟩)) ∧
      (run {} crowdedProject (Signals.check {} ⟨0⟩)).toOption.map
        (fun gen => (gen.diagrams.map (·.name), gen.warnings)) =
      some (["Level"], [.missingRoot ⟨"/p/Empty.tscn"⟩,
        .duplicateName "Level" "Level.tscn" "b/Level.tscn",
        .duplicateName "Level" "Level.tscn" "b/Level.cs"]) :=
  ⟨rfl, run_outcome {} crowdedProject {} ⟨0⟩ rfl, by decide +kernel⟩

end SceneDiagram.Generation
