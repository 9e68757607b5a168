import SceneDiagram.Proofs.Diagram.Reordering
import SceneDiagram.Proofs.Generation.Collision

/-!
# The order of the inputs

`run_reordered`: where no two inputs ask for one name, their order does not count. The
registered nodes are a function of the scenes and groups there are
(`nodes_addSources`, `nodes_addGroups`), so passes over one and the same inputs wire
graphs that differ in their order only.
-/

namespace SceneDiagram

open Hierarchy

/-- The project with its inputs in another order. Declarations of one file keep theirs. -/
structure Project.Reorders (p p' : Project) : Prop where
  dir : p.dir = p'.dir
  outputDir : p.outputDir = p'.outputDir
  scenes : p.scenes.Perm p'.scenes
  declarations : p.declarations.Perm p'.declarations
  inFile : ∀ file : Path, p.declarations.filter (file.same ·.file) =
    p'.declarations.filter (file.same ·.file)

namespace Generation

def rootName? (source : SceneSource) : Option String :=
  match Scene.read source.text with
  | .ok (scene, _) => scene.root.map (·.name)
  | .error _ => none

/-- Every scene of the project parses, and no two scenes, and no two files with
declarations, have one name. -/
structure Independent (p : Project) : Prop where
  parses : ∀ source ∈ p.scenes, ∃ scene diagnostics,
    Scene.read source.text = .ok (scene, diagnostics)
  roots : (p.scenes.filterMap rootName?).Nodup
  files : ((Group.ofDeclarations p.declarations).filterMap (·.file.nodeName?)).Nodup

-- ---------------------------------------------------------------------------
-- The nodes of scenes
-- ---------------------------------------------------------------------------

variable {r : Registry}

def nodeOf? (dir : Path) (source : SceneSource) : Option Node :=
  match Scene.read source.text with
  | .ok (scene, _) => Node.ofScene? scene (FileRef.inProject dir source.path)
      (scene.script?.map fun s => FileRef.inProject dir (FileRef.resourcePath s.path))
  | .error _ => none

theorem name_nodeOf? (dir : Path) (source : SceneSource) :
    (nodeOf? dir source).map (·.name) = rootName? source := by
  unfold nodeOf? rootName?
  cases Scene.read source.text with
  | error _ => rfl
  | ok read => simp [Node.ofScene?, Function.comp_def]

theorem awaits_of_nodeOf? (h : nodeOf? dir source = some n) : Registry.awaitsDeclarations n := by
  unfold nodeOf? at h
  split at h
  · obtain ⟨root, -, rfl⟩ := Option.map_eq_some_iff.mp h
    rfl
  · cases h

theorem nodes_insert_of_free (h : r.find? n.name = none) :
    (r.insert n).nodes = r.nodes ++ [n] := by
  rw [Registry.insert, h]

theorem addSource_of_free (hread : Scene.read source.text = .ok (scene, diagnostics))
    (hfree : ∀ name ∈ rootName? source, name ∉ r.nodes.map (·.name)) :
    ∃ r', addSource r source = .ok r' ∧ r'.dir = r.dir ∧
      r'.nodes = r.nodes ++ (nodeOf? r.dir source).toList := by
  rw [← name_nodeOf? r.dir] at hfree
  unfold nodeOf? at hfree ⊢
  rw [addSource, hread]
  rw [hread] at hfree
  simp only [Registry.foldl_warn, Registry.addScene] at hfree ⊢
  refine ⟨_, rfl, ?_⟩
  split
  · next n hn =>
    rw [hn] at hfree ⊢
    exact ⟨Registry.dir_insert _ _,
      nodes_insert_of_free (Registry.find?_eq_none.mpr (hfree n.name rfl))⟩
  · next hn =>
    rw [hn]
    exact ⟨rfl, (List.append_nil _).symm⟩

theorem filterMap_cons_toList (f : α → Option β) (a : α) (l : List α) :
    (a :: l).filterMap f = (f a).toList ++ l.filterMap f := by
  cases h : f a <;> simp [h]

theorem nodes_addSources {sources : List SceneSource}
    (hparses : ∀ source ∈ sources, ∃ scene diagnostics,
      Scene.read source.text = .ok (scene, diagnostics))
    (hnodup : (r.nodes.map (·.name) ++ sources.filterMap rootName?).Nodup) :
    ∃ r', sources.foldlM addSource r = .ok r' ∧ r'.dir = r.dir ∧
      r'.nodes = r.nodes ++ sources.filterMap (nodeOf? r.dir) := by
  induction sources generalizing r with
  | nil => exact ⟨r, rfl, rfl, (List.append_nil _).symm⟩
  | cons source sources ih =>
    obtain ⟨⟨scene, diagnostics, hread⟩, hparses⟩ := List.forall_mem_cons.mp hparses
    rw [filterMap_cons_toList, ← List.append_assoc] at hnodup
    have hfree : ∀ name ∈ rootName? source, name ∉ r.nodes.map (·.name) := fun name hname hmem =>
      (List.nodup_append.mp hnodup.of_append_left).2.2 name hmem name
        (Option.mem_toList.mpr hname) rfl
    obtain ⟨r₁, h₁, hdir₁, hnodes₁⟩ := addSource_of_free hread hfree
    have hnames₁ : r₁.nodes.map (·.name) = r.nodes.map (·.name) ++ (rootName? source).toList := by
      rw [hnodes₁, List.map_append, ← name_nodeOf? r.dir, Option.toList_map]
    rw [← hnames₁] at hnodup
    obtain ⟨r', h', hdir', hnodes'⟩ := ih hparses hnodup
    refine ⟨r', ?_, hdir'.trans hdir₁, ?_⟩
    · rw [List.foldlM_cons, h₁]
      exact h'
    · rw [hnodes', hnodes₁, hdir₁, filterMap_cons_toList, List.append_assoc]

-- ---------------------------------------------------------------------------
-- The nodes of groups
-- ---------------------------------------------------------------------------

def groupOf? (groups : List Group) (name : String) : Option Group :=
  groups.find? (·.file.nodeName? == some name)

def complete (groups : List Group) (n : Node) : Node :=
  (groupOf? groups n.name).elim n fun g => n.attach g.declarations

def ownNode? (dir : Path) (names : List String) (g : Group) : Option Node :=
  (g.file.nodeName?.filter (· ∉ names)).map fun name =>
    .ofDeclarations name (FileRef.inProject dir g.file) g.declarations

theorem name_complete (groups : List Group) (n : Node) : (complete groups n).name = n.name := by
  unfold complete
  cases groupOf? groups n.name <;> rfl

theorem complete_of_not_mem {groups : List Group} {n : Node}
    (h : n.name ∉ groups.filterMap (·.file.nodeName?)) : complete groups n = n := by
  have hnone : groupOf? groups n.name = none := by simpa [groupOf?] using h
  rw [complete, hnone, Option.elim_none]

theorem map_complete_of_not_mem {groups : List Group} {nodes : List Node}
    (h : ∀ n ∈ nodes, n.name ∉ groups.filterMap (·.file.nodeName?)) :
    nodes.map (complete groups) = nodes :=
  (List.map_congr_left fun n hn => complete_of_not_mem (h n hn)).trans (List.map_id _)

theorem complete_cons_of_eq {g : Group} {n : Node} (groups : List Group)
    (h : g.file.nodeName? = some n.name) :
    complete (g :: groups) n = n.attach g.declarations := by
  rw [complete, groupOf?, List.find?_cons_of_pos (by simpa using h), Option.elim_some]

theorem complete_cons_of_ne {g : Group} {n : Node} (groups : List Group)
    (h : g.file.nodeName? ≠ some n.name) : complete (g :: groups) n = complete groups n := by
  rw [complete, complete, groupOf?, groupOf?, List.find?_cons_of_neg (by simpa using h)]

theorem complete_singleton_of_ne {g : Group} {n : Node} (h : g.file.nodeName? ≠ some n.name) :
    complete [g] n = n := complete_cons_of_ne [] h

theorem complete_complete {g : Group} {groups : List Group}
    (h : ∀ name ∈ g.file.nodeName?, name ∉ groups.filterMap (·.file.nodeName?)) (n : Node) :
    complete groups (complete [g] n) = complete (g :: groups) n := by
  by_cases hg : g.file.nodeName? = some n.name
  · rw [complete_cons_of_eq _ hg, complete_cons_of_eq _ hg, complete_of_not_mem]
    exact h n.name hg
  · rw [complete_singleton_of_ne hg, complete_cons_of_ne _ hg]

theorem name_of_ownNode? (h : ownNode? dir names g = some n) :
    g.file.nodeName? = some n.name ∧ n.name ∉ names := by
  obtain ⟨name, hname, rfl⟩ := Option.map_eq_some_iff.mp h
  obtain ⟨hname, hfree⟩ := Option.filter_eq_some_iff.mp hname
  exact ⟨hname, of_decide_eq_true hfree⟩

theorem ownNode?_append {g : Group} {names more : List String}
    (h : ∀ name ∈ g.file.nodeName?, name ∉ more) :
    ownNode? dir (names ++ more) g = ownNode? dir names g := by
  unfold ownNode?
  cases hname : g.file.nodeName? with
  | none => rfl
  | some name => simp [Option.filter, h name hname]

theorem addGroup_of_awaiting {g : Group} (hname : g.file.nodeName? = some name)
    (hmem : name ∈ r.nodes.map (·.name))
    (hawaits : ∀ n ∈ r.nodes, n.name = name → Registry.awaitsDeclarations n) :
    (r.addGroup g).nodes = r.nodes.map (complete [g]) := by
  obtain ⟨n, hn⟩ := Option.ne_none_iff_exists'.mp fun hnone => Registry.find?_eq_none.mp hnone hmem
  have hany := hawaits n (List.mem_of_find?_eq_some hn) (eq_of_beq (List.find?_some hn :))
  rw [Registry.addGroup, hname]
  simp only [hn, Option.any_some, hany, ↓reduceIte]
  refine List.map_congr_left fun m _ => ?_
  by_cases hm : m.name = name
  · rw [if_pos (beq_iff_eq.mpr hm), complete_cons_of_eq [] (hm ▸ hname)]
  · rw [if_neg (by simpa using hm), complete_singleton_of_ne]
    exact fun hg => hm (Option.some.inj (hg.symm.trans hname))

theorem nodes_addGroup {g : Group}
    (hawaits : ∀ n ∈ r.nodes, g.file.nodeName? = some n.name → Registry.awaitsDeclarations n) :
    (r.addGroup g).nodes =
      r.nodes.map (complete [g]) ++ (ownNode? r.dir (r.nodes.map (·.name)) g).toList := by
  cases hname : g.file.nodeName? with
  | none =>
    have hmap : r.nodes.map (complete [g]) = r.nodes :=
      map_complete_of_not_mem fun n _ => by simp [hname]
    rw [Registry.addGroup, ownNode?, hname, hmap]
    exact (List.append_nil _).symm
  | some name =>
    by_cases hmem : name ∈ r.nodes.map (·.name)
    · rw [addGroup_of_awaiting hname hmem fun n hn heq => hawaits n hn (heq ▸ hname), ownNode?,
        hname, Option.filter_some_neg (by simpa using hmem)]
      exact (List.append_nil _).symm
    · have hmap : r.nodes.map (complete [g]) = r.nodes := by
        refine map_complete_of_not_mem fun n hn hg => hmem ?_
        obtain rfl : n.name = name := by simpa [hname] using hg
        exact List.mem_map_of_mem hn
      have hnone := Registry.find?_eq_none.mpr hmem
      rw [Registry.addGroup, ownNode?, hname, Option.filter_some_pos (by simpa using hmem), hmap]
      simp only [hnone, Option.any_none, Bool.false_eq_true, ↓reduceIte]
      exact nodes_insert_of_free hnone

theorem nodes_addGroups {groups : List Group}
    (hnodup : (groups.filterMap (·.file.nodeName?)).Nodup)
    (hawaits : ∀ n ∈ r.nodes, n.name ∈ groups.filterMap (·.file.nodeName?) →
      Registry.awaitsDeclarations n) :
    (groups.foldl Registry.addGroup r).nodes = r.nodes.map (complete groups) ++
      groups.filterMap (ownNode? r.dir (r.nodes.map (·.name))) := by
  induction groups generalizing r with
  | nil =>
    have hself : complete [] = id := rfl
    simp [hself]
  | cons g groups ih =>
    rw [filterMap_cons_toList] at hnodup hawaits
    have hfresh : ∀ name ∈ g.file.nodeName?, name ∉ groups.filterMap (·.file.nodeName?) :=
      fun name hname hmem => (List.nodup_append.mp hnodup).2.2 name (Option.mem_toList.mpr hname)
        name hmem rfl
    have hnodes := nodes_addGroup (r := r) (g := g) fun n hn hg =>
      hawaits n hn (List.mem_append_left _ (Option.mem_toList.mpr hg))
    have hown : (ownNode? r.dir (r.nodes.map (·.name)) g).toList.map (complete groups) =
        (ownNode? r.dir (r.nodes.map (·.name)) g).toList :=
      map_complete_of_not_mem fun n hn =>
        hfresh _ (name_of_ownNode? (Option.mem_toList.mp hn)).1
    have hnames : (r.addGroup g).nodes.map (·.name) = r.nodes.map (·.name) ++
        (ownNode? r.dir (r.nodes.map (·.name)) g).toList.map (·.name) := by
      rw [hnodes, List.map_append, List.map_map]
      simp only [Function.comp_def, name_complete]
    have hfreeOwn : ∀ k ∈ groups, ownNode? r.dir ((r.addGroup g).nodes.map (·.name)) k =
        ownNode? r.dir (r.nodes.map (·.name)) k := by
      intro k hk
      rw [hnames]
      refine ownNode?_append fun name hname hmem => ?_
      obtain ⟨n, hn, rfl⟩ := List.mem_map.mp hmem
      exact hfresh _ (name_of_ownNode? (Option.mem_toList.mp hn)).1
        (List.mem_filterMap.mpr ⟨k, hk, hname⟩)
    rw [List.foldl_cons, filterMap_cons_toList, ih hnodup.of_append_right, Registry.dir_addGroup,
      List.filterMap_congr hfreeOwn, hnodes, List.map_append, List.map_map, hown, List.append_assoc]
    · exact congrArg (· ++ _) (List.map_congr_left fun n _ => complete_complete hfresh n)
    · intro n hn hmem
      rw [hnodes] at hn
      rcases List.mem_append.mp hn with hn | hn
      · obtain ⟨m, hm, rfl⟩ := List.mem_map.mp hn
        rw [name_complete] at hmem
        rw [complete_singleton_of_ne fun hg => hfresh _ hg hmem]
        exact hawaits m hm (List.mem_append_right _ hmem)
      · exact absurd hmem (hfresh _ (name_of_ownNode? (Option.mem_toList.mp hn)).1)

-- ---------------------------------------------------------------------------
-- Registering in another order
-- ---------------------------------------------------------------------------

variable {p p' : Project}

theorem Independent.reordered (hp : Independent p) (h : p.Reorders p') : Independent p' where
  parses source hs := hp.parses source (h.scenes.mem_iff.mpr hs)
  roots := (h.scenes.filterMap _).nodup_iff.mp hp.roots
  files := ((Group.ofDeclarations_perm h.inFile).filterMap _).nodup_iff.mp hp.files

theorem eq_of_nodup_filterMap {f : α → Option β} {l : List α} (h : (l.filterMap f).Nodup)
    (ha : a ∈ l) (hb : b ∈ l) (hac : f a = some c) (hbc : f b = some c) : a = b := by
  induction l with
  | nil => cases ha
  | cons x l ih =>
    rw [filterMap_cons_toList, List.nodup_append] at h
    have hfirst {y : α} (hy : y ∈ l) (hxc : f x = some c) : f y ≠ some c := fun hyc =>
      h.2.2 c (Option.mem_toList.mpr hxc) c (List.mem_filterMap.mpr ⟨y, hy, hyc⟩) rfl
    rcases List.mem_cons.mp ha with rfl | hal <;> rcases List.mem_cons.mp hb with rfl | hbl
    · rfl
    · exact absurd hbc (hfirst hbl hac)
    · exact absurd hac (hfirst hal hbc)
    · exact ih h.2.1 hal hbl

theorem complete_eq_of_perm {groups groups' : List Group} (h : groups.Perm groups')
    (hnodup : (groups.filterMap (·.file.nodeName?)).Nodup) :
    complete groups = complete groups' := by
  funext n
  have hfind := find?_eq_of_perm (p := (·.file.nodeName? == some n.name)) h fun g hg k hk hgn hkn =>
    eq_of_nodup_filterMap hnodup hg hk (eq_of_beq hgn) (eq_of_beq hkn)
  rw [complete, complete, groupOf?, groupOf?, hfind]

theorem ownNode?_eq_of_perm {names names' : List String} (h : names.Perm names') (dir : Path) :
    ownNode? dir names = ownNode? dir names' := by
  funext g
  simp only [ownNode?, h.mem_iff]

/-- The nodes of independent inputs, as a function of what inputs there are. -/
def nodesOf (dir : Path) (scenes : List SceneSource) (groups : List Group) : List Node :=
  (scenes.filterMap (nodeOf? dir)).map (complete groups) ++
    groups.filterMap (ownNode? dir ((scenes.filterMap (nodeOf? dir)).map (·.name)))

theorem nodesOf_perm {scenes scenes' : List SceneSource} {groups groups' : List Group} (dir : Path)
    (hscenes : scenes.Perm scenes') (hgroups : groups.Perm groups')
    (hnodup : (groups.filterMap (·.file.nodeName?)).Nodup) :
    (nodesOf dir scenes groups).Perm (nodesOf dir scenes' groups') := by
  have hnodes := hscenes.filterMap (nodeOf? dir)
  rw [nodesOf, nodesOf, complete_eq_of_perm hgroups hnodup,
    ownNode?_eq_of_perm (hnodes.map (·.name))]
  exact (hnodes.map _).append (hgroups.filterMap _)

theorem register_independent (hp : Independent p) : ∃ r, register p (.ok ()) = .ok r ∧
    r.nodes = nodesOf p.dir p.scenes (Group.ofDeclarations p.declarations) := by
  obtain ⟨r, hr, hdir, hnodes⟩ := nodes_addSources (r := { dir := p.dir }) hp.parses hp.roots
  rw [List.nil_append] at hnodes
  have hawaits : ∀ n ∈ r.nodes, Registry.awaitsDeclarations n := by
    intro n hn
    rw [hnodes] at hn
    obtain ⟨source, -, hsource⟩ := List.mem_filterMap.mp hn
    exact awaits_of_nodeOf? hsource
  refine ⟨_, by rw [register_eq, hr]; rfl, ?_⟩
  rw [nodes_addGroups hp.files fun n hn _ => hawaits n hn, hnodes, hdir, nodesOf]

theorem register_reordered (h : p.Reorders p') (hp : Independent p) :
    ∃ r r', register p (.ok ()) = .ok r ∧ register p' (.ok ()) = .ok r' ∧
      r.nodes.Perm r'.nodes := by
  obtain ⟨r, hr, hnodes⟩ := register_independent hp
  obtain ⟨r', hr', hnodes'⟩ := register_independent (hp.reordered h)
  refine ⟨r, r', hr, hr', ?_⟩
  rw [hnodes, hnodes', ← h.dir]
  exact nodesOf_perm p.dir h.scenes (Group.ofDeclarations_perm h.inFile) hp.files

-- ---------------------------------------------------------------------------
-- Drawing in another order
-- ---------------------------------------------------------------------------

theorem drawnRoots_withoutParents (config : DiagramConfig) (graph : Graph) :
    (drawnRoots config graph).map (·.withoutParents) =
      ((graph.nodes.map (·.settled)).filter fun s =>
        s.2 && (!config.requireOptIn || s.1.marker?.isSome)).map (·.1) := by
  rw [drawnRoots, Graph.roots, List.filter_filter, List.filter_map, List.map_map]
  congr 1
  refine List.filter_congr fun n _ => ?_
  exact Bool.and_comm _ _

theorem draw_reordered {g g' : Graph} (h : g.Reorders g') (config : Config)
    (hproject : p.Reorders p') : (draw config p g).Perm (draw config p' g') := by
  have htarget : p.target = p'.target := by
    rw [Project.target, Project.target, hproject.dir, hproject.outputDir]
  have hdraw {k : Graph} (hk : k.Reorders g') (base : String) :
      (drawnRoots config.diagram k).map (Diagram.ofRoot k config base) =
        ((drawnRoots config.diagram k).map (·.withoutParents)).map
          (Diagram.ofRoot g' config base) := by
    rw [List.map_map]
    exact List.map_congr_left fun n _ => Diagram.ofRoot_reordered hk config base n
  rw [draw, draw, hdraw h, hdraw h.refl_right, htarget, hproject.dir, drawnRoots_withoutParents,
    drawnRoots_withoutParents]
  exact ((h.perm.filter _).map _).map _

theorem run_of_cycle (hr : register p (.ok ()) = .ok r)
    (hc : (wired config r).cycle? = some name) :
    run config p (.ok ()) = .error (.cycle name) := by
  rw [wired] at hc
  simp only [run, hr, bind, Except.bind, hc]

/-- Where no two inputs ask for one name, a pass gives the same documents in every
order of the inputs, or fails on a cycle in every order. -/
theorem run_reordered (h : p.Reorders p') (hp : Independent p) (config : Config) :
    Agree (fun e e' => ∃ name name', e = .cycle name ∧ e' = .cycle name')
      (fun gen gen' => gen.diagrams.Perm gen'.diagrams)
      (run config p (.ok ())) (run config p' (.ok ())) := by
  obtain ⟨r, r', hr, hr', hperm⟩ := register_reordered h hp
  have hu := (register_built hr).unwired_graph config.analysis.interfacePrefix
  have hu' := (register_built hr').unwired_graph config.analysis.interfacePrefix
  have hgraph : (wired config r).Reorders (wired config r') :=
    Graph.wire_reorders hu (hperm.map _)
  have hcycle := hgraph.cycle?_eq_none (hu.proper_wire _) (hu'.proper_wire _)
  cases hc : (wired config r).cycle? with
  | none =>
    rw [run_of_registered hr hc, run_of_registered hr' (hcycle.mp hc)]
    exact .ok (draw_reordered hgraph config h)
  | some name =>
    cases hc' : (wired config r').cycle? with
    | none => exact absurd (hcycle.mpr hc') (by simp [hc])
    | some name' =>
      rw [run_of_cycle hr hc, run_of_cycle hr' hc']
      exact .error ⟨name, name', rfl, rfl⟩

theorem exists_of_rootName? (h : rootName? source = some name) :
    ∃ scene diagnostics, Scene.read source.text = .ok (scene, diagnostics) := by
  unfold rootName? at h
  split at h
  · next scene diagnostics hread => exact ⟨scene, diagnostics, hread⟩
  · cases h

def levelScene : SceneSource :=
  ⟨⟨"/p/Level.tscn"⟩,
    "[node name=\"Level\" type=\"Node\"][node name=\"Player\" type=\"Node\" parent=\".\"]"⟩

def playerScene : SceneSource := ⟨⟨"/p/Player.tscn"⟩, "[node name=\"Player\" type=\"Node\"]"⟩

theorem run_reordered_level :
    let level : Declaration := { name := "Level", kind := .classType, file := ⟨"/p/Level.cs"⟩ }
    let player : Declaration := { name := "Player", kind := .classType, file := ⟨"/p/Player.cs"⟩ }
    let p : Project :=
      { dir := ⟨"/p"⟩, scenes := [levelScene, playerScene], declarations := [level, player] }
    let p' : Project :=
      { dir := ⟨"/p"⟩, scenes := [playerScene, levelScene], declarations := [player, level] }
    p.Reorders p' ∧ Independent p ∧
      Agree (fun e e' => ∃ name name', e = .cycle name ∧ e' = .cycle name')
        (fun gen gen' => gen.diagrams.Perm gen'.diagrams)
        (run {} p (.ok ())) (run {} p' (.ok ())) := by
  intro level player p p'
  have hreorders : p.Reorders p' := by
    refine ⟨rfl, rfl, .swap .., .swap .., fun file => ?_⟩
    have hfiles : level.file.components ≠ player.file.components := by decide +kernel
    have hapart : ¬ (file.same level.file ∧ file.same player.file) := by
      rintro ⟨hl, hp⟩
      exact hfiles ((Path.same_iff.mp hl).symm.trans (Path.same_iff.mp hp))
    by_cases hl : file.same level.file <;> by_cases hp : file.same player.file <;>
      simp_all [p, p']
  have hlevel : rootName? levelScene = some "Level" := by decide +kernel
  have hplayer : rootName? playerScene = some "Player" := by decide +kernel
  have hindependent : Independent p := by
    refine ⟨?_, ?_, by decide +kernel⟩
    · simp only [p, List.forall_mem_cons]
      exact ⟨exists_of_rootName? hlevel, exists_of_rootName? hplayer, nofun⟩
    · simp [p, hlevel, hplayer]
  exact ⟨hreorders, hindependent, run_reordered hreorders hindependent {}⟩

end Generation

end SceneDiagram
