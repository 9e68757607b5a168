import SceneDiagram.Hierarchy.Cycle
import SceneDiagram.Proofs.Hierarchy.FirstEdges
import SceneDiagram.Proofs.Hierarchy.Groups
import SceneDiagram.Proofs.Hierarchy.Records

/-!
# Every input is accounted for

`accounts_ofInputs`: of scenes and then declarations, each has one fate, and what the
registry warns of and what is in its graph are what these fates say. A name is that of the
first input that asks for it, a scene has the declarations of the first group of its name,
and what a warning says is kept is in the graph.
-/

namespace SceneDiagram.Hierarchy

variable {dir : Path} {inputs : List Input} {i : Input} {g : Group} {n : Node}
  {name mark : String}

theorem nodup_eraseDups (l : List String) : l.eraseDups.Nodup := by
  -- The first edges of a list have each child once, in the order of `eraseDups`.
  have h := nodup_firstEdges (l.map (·, .contained))
  rwa [map_fst_firstEdges, List.map_map, Function.comp_def, List.map_id'] at h

namespace Registry

variable {r : Registry}

-- ---------------------------------------------------------------------------
-- The graph of a registry
-- ---------------------------------------------------------------------------

theorem Records.nodes_graph (h : Records dir inputs r) (mark : String) :
    (r.graph mark).nodes = ((fates [] inputs).filterMap (registered? dir)).map fun n =>
      (completed inputs n).settle mark := by
  rw [graph, h.nodes, List.map_map]
  rfl

theorem Records.names_graph (h : Records dir inputs r) (mark : String) :
    (r.graph mark).names = (inputs.filterMap (·.name?)).eraseDups := by
  rw [← h.holds.names, Graph.names, graph, List.map_map]
  rfl

theorem Records.nodup_names_graph (h : Records dir inputs r) (mark : String) :
    (r.graph mark).names.Nodup := by
  rw [h.names_graph]
  exact nodup_eraseDups _

theorem Records.eq_of_mem_graph (h : Records dir inputs r) (hn : n ∈ (r.graph mark).nodes) :
    ∃ i, holder? inputs n.name = some i ∧
      n = (completed inputs (i.node dir n.name)).settle mark := by
  rw [h.nodes_graph] at hn
  obtain ⟨m, hm, rfl⟩ := List.mem_map.mp hn
  obtain ⟨i, hholder, hnode⟩ := exists_holder?_of_mem_registered hm
  have hname : ((completed inputs m).settle mark).name = m.name := name_completed
  exact ⟨i, hname ▸ hholder, by rw [hname, hnode]⟩

theorem Records.find?_graph (h : Records dir inputs r) (mark name : String) :
    (r.graph mark).find? name =
      (holder? inputs name).map fun i => (completed inputs (i.node dir name)).settle mark := by
  cases hholder : holder? inputs name with
  | none =>
    have hfree : name ∉ (r.graph mark).names := by
      rw [h.names_graph, List.mem_eraseDups, ← holder?_isSome, hholder]
      exact Bool.false_ne_true
    simpa [Graph.find?, Graph.names] using hfree
  | some i =>
    have hmem : name ∈ (r.graph mark).names := by
      rw [h.names_graph, List.mem_eraseDups, ← holder?_isSome, hholder]
      rfl
    obtain ⟨n, hn, rfl⟩ := List.mem_map.mp hmem
    obtain ⟨k, hk, hnode⟩ := h.eq_of_mem_graph hn
    obtain rfl : k = i := Option.some.inj (hk.symm.trans hholder)
    rw [Graph.find?, find?_eq_some_of_nodup (h.nodup_names_graph mark) hn, Option.map_some,
      ← hnode]

theorem Records.exists_of_duplicateName (h : Records dir inputs r)
    (hw : .duplicateName name kept ignored ∈ r.warnings) :
    ∃ before i after k, inputs = before ++ i :: after ∧ i.name? = some name ∧
      holder? before name = some k ∧ kept = FileRef.relativeTo dir k.file ∧
      ignored = FileRef.relativeTo dir i.file := by
  rw [h.warnings] at hw
  obtain ⟨⟨i, f⟩, hmem, hwarning⟩ := List.mem_filterMap.mp hw
  cases f with
  | duplicate other file =>
    cases hwarning
    obtain ⟨before, after, hinputs, hname, -, k, hk, rfl⟩ := mem_fates_iff_becomes.mp hmem
    exact ⟨before, i, after, k, hinputs, hname, hk, rfl, rfl⟩
  | registered _ | attached _ | rootless | skipped => cases hwarning

end Registry

-- ---------------------------------------------------------------------------
-- Scenes and then declarations
-- ---------------------------------------------------------------------------

def inputsOf (scenes : List (Path × Scene)) (ds : List Declaration) : List Input :=
  scenes.map (fun (path, scene) => .scene path scene) ++ (Group.ofDeclarations ds).map .group

def Registry.ofInputs (dir : Path) (scenes : List (Path × Scene)) (ds : List Declaration) :
    Registry :=
  (scenes.foldl (fun (r : Registry) (path, scene) => r.addScene path scene)
    { dir := dir }).addDeclarations ds

theorem groups_inputsOf (scenes : List (Path × Scene)) (ds : List Declaration) :
    (inputsOf scenes ds).filterMap (·.group?) = Group.ofDeclarations ds := by
  have hscenes : (scenes.map fun (path, scene) => Input.scene path scene).filterMap
      (·.group?) = [] := by
    rw [List.filterMap_map]
    exact List.filterMap_eq_nil_iff.mpr fun _ _ => rfl
  have hgroups : ((Group.ofDeclarations ds).map Input.group).filterMap (·.group?) =
      Group.ofDeclarations ds := by
    rw [List.filterMap_map]
    exact List.filterMap_some
  rw [inputsOf, List.filterMap_append, hscenes, hgroups, List.nil_append]

theorem filled_inputsOf (scenes : List (Path × Scene)) (ds : List Declaration) :
    ∀ i ∈ inputsOf scenes ds, i.Filled := by
  intro i hi
  rcases List.mem_append.mp hi with hi | hi
  · obtain ⟨source, -, rfl⟩ := List.mem_map.mp hi
    trivial
  · obtain ⟨g, hg, rfl⟩ := List.mem_map.mp hi
    exact Group.declarations_ne_nil hg

namespace Registry

theorem ofInputs_eq_foldl (dir : Path) (scenes : List (Path × Scene)) (ds : List Declaration) :
    ofInputs dir scenes ds = (inputsOf scenes ds).foldl Registry.add { dir := dir } := by
  rw [inputsOf, List.foldl_append, List.foldl_map, List.foldl_map]
  rfl

theorem records_ofInputs (dir : Path) (scenes : List (Path × Scene)) (ds : List Declaration) :
    Records dir (inputsOf scenes ds) (ofInputs dir scenes ds) := by
  rw [ofInputs_eq_foldl]
  exact (Records.empty dir).foldl_add (inputsOf scenes ds) (filled_inputsOf scenes ds)

-- ---------------------------------------------------------------------------
-- Accounts
-- ---------------------------------------------------------------------------

/-- What a registry and its graph owe to each of these inputs, whose groups are those of
the declarations. -/
structure Accounts (dir : Path) (inputs : List Input) (ds : List Declaration) (mark : String)
    (r : Registry) : Prop where
  /-- Every declaration is in one group, with those of its file. -/
  groups : inputs.filterMap (·.group?) = Group.ofDeclarations ds ∧
    Group.Grouped ds (Group.ofDeclarations ds)
  /-- Every input has one fate, by its kind, its name and what came before it. -/
  each : (fates [] inputs).map (·.1) = inputs ∧ ∀ i f, (i, f) ∈ fates [] inputs ↔
    ∃ before after, inputs = before ++ i :: after ∧ i.Becomes before f
  /-- The nodes are those of the registered inputs. -/
  nodes : (r.graph mark).nodes = ((fates [] inputs).filterMap (registered? dir)).map fun n =>
    (completed inputs n).settle mark
  /-- The warnings are those about duplicates and missing roots. -/
  warnings : r.warnings = (fates [] inputs).filterMap (warningOf? dir)
  /-- Names stand in the order in which they were first asked for, each once. -/
  names : (r.graph mark).names = (inputs.filterMap (·.name?)).eraseDups ∧
    (r.graph mark).names.Nodup
  /-- The first group of a name is attached if the name is that of a scene. -/
  attached : ∀ before g after name, inputs = before ++ .group g :: after →
    (fate before (.group g) = .attached name ↔
      g.file.nodeName? = some name ∧ (∀ k, .group k ∈ before → k.file.nodeName? ≠ some name) ∧
        ∃ n ∈ (r.graph mark).nodes, n.name = name ∧ n.isScene)
  /-- A scene has the declarations of the group that is attached to it, and no others. -/
  declared : ∀ n ∈ (r.graph mark).nodes, n.isScene →
    n.declarations = (firstGroup? inputs n.name).elim [] (·.declarations)
  /-- What a warning says is kept is in the graph. -/
  kept : ∀ name kept ignored, .duplicateName name kept ignored ∈ r.warnings →
    ∃ n, (r.graph mark).find? name = some n ∧ n.file.relative = kept

theorem Records.isScene_eq (h : Records dir inputs r) (hn : n ∈ (r.graph mark).nodes)
    (hholder : holder? inputs n.name = some i) : n.isScene = i.isScene := by
  obtain ⟨k, hk, hnode⟩ := h.eq_of_mem_graph hn
  obtain rfl : k = i := Option.some.inj (hk.symm.trans hholder)
  rw [congrArg Node.isScene hnode]
  exact isScene_completed.trans Input.isScene_node

theorem Records.isScene_graph (h : Records dir inputs r) (mark name : String) :
    (∃ n ∈ (r.graph mark).nodes, n.name = name ∧ n.isScene) ↔
      (holder? inputs name).any (·.isScene) := by
  constructor
  · rintro ⟨n, hn, rfl, hscene⟩
    obtain ⟨i, hholder, -⟩ := h.eq_of_mem_graph hn
    rw [hholder, Option.any_some, ← h.isScene_eq hn hholder, hscene]
  · intro hscene
    obtain ⟨i, hholder, hi⟩ := (Option.any_eq_true _ _).mp hscene
    have hfind := h.find?_graph mark name
    rw [hholder, Option.map_some] at hfind
    refine ⟨_, List.mem_of_find?_eq_some hfind, eq_of_beq (List.find?_some hfind :), ?_⟩
    exact isScene_completed.trans (Input.isScene_node.trans hi)

theorem Records.attached_iff (h : Records dir (before ++ .group g :: after) r) (mark : String) :
    fate before (.group g) = .attached name ↔
      g.file.nodeName? = some name ∧ (∀ k, .group k ∈ before → k.file.nodeName? ≠ some name) ∧
        ∃ n ∈ (r.graph mark).nodes, n.name = name ∧ n.isScene := by
  rw [fate_group_eq_attached, h.isScene_graph, ← firstGroup?_eq_none, awaited_eq, Bool.and_eq_true,
    Option.isNone_iff_eq_none]
  refine and_congr_right fun hname => ?_
  rw [and_comm]
  refine and_congr_right fun _ => ?_
  cases hholder : holder? before name with
  | some kept => rw [holder?_append hholder]
  | none =>
    -- Had nobody the name before, then the group has it and there is no such scene.
    have hgroup := holder?_append_of_none hholder (i := .group g) hname
    rw [List.append_cons, holder?_append hgroup]
    rfl

theorem Records.declarations_eq (h : Records dir inputs r) (hn : n ∈ (r.graph mark).nodes)
    (hscene : n.isScene) :
    n.declarations = (firstGroup? inputs n.name).elim [] (·.declarations) := by
  obtain ⟨i, hholder, hnode⟩ := h.eq_of_mem_graph hn
  have hi := h.isScene_eq hn hholder
  cases i with
  | scene path scene =>
    rw [congrArg Node.declarations hnode]
    exact List.nil_append _
  | group g =>
    rw [hscene] at hi
    cases hi

theorem Records.kept_mem_graph (h : Records dir inputs r)
    (hw : .duplicateName name kept ignored ∈ r.warnings) (mark : String) :
    ∃ n, (r.graph mark).find? name = some n ∧ n.file.relative = kept := by
  obtain ⟨before, i, after, k, rfl, -, hk, rfl, -⟩ := h.exists_of_duplicateName hw
  refine ⟨_, by rw [h.find?_graph, holder?_append hk, Option.map_some], ?_⟩
  have hfile : ((completed (before ++ i :: after) (k.node dir name)).settle mark).file =
      FileRef.inProject dir k.file := file_completed.trans Input.file_node
  rw [hfile]
  rfl

/-- Every scene and every group of declarations is accounted for. -/
theorem accounts_ofInputs (dir : Path) (scenes : List (Path × Scene)) (ds : List Declaration)
    (mark : String) :
    Accounts dir (inputsOf scenes ds) ds mark (ofInputs dir scenes ds) := by
  have h := records_ofInputs dir scenes ds
  exact {
    groups := ⟨groups_inputsOf scenes ds, Group.grouped_ofDeclarations ds⟩
    each := ⟨map_fst_fates [] _, fun _ _ => mem_fates_iff_becomes⟩
    nodes := h.nodes_graph mark
    warnings := h.warnings
    names := ⟨h.names_graph mark, h.nodup_names_graph mark⟩
    attached := fun before g after name hinputs => (hinputs ▸ h).attached_iff mark
    declared := fun n hn hscene => h.declarations_eq hn hscene
    kept := fun name kept ignored hw => h.kept_mem_graph hw mark }

end Registry

end SceneDiagram.Hierarchy
