import SceneDiagram.Hierarchy.Graph

/-!
# Registries that can arise

A registry grows from nothing by scenes, declarations and warnings, in any
order. Its nodes have names of their own and no edges.
-/

namespace SceneDiagram.Hierarchy

/-- The registries that can arise. -/
inductive Registry.Built : Registry → Prop
  | empty (dir : Path) : Built { dir := dir }
  | warn (w : Warning) : Built r → Built (r.warn w)
  | addScene (path : Path) (scene : Scene) : Built r → Built (r.addScene path scene)
  | addDeclarations (ds : List Declaration) : Built r → Built (r.addDeclarations ds)

/-- Names are unique and no node has edges. -/
structure Unwired (nodes : List Node) : Prop where
  nodup : (nodes.map (·.name)).Nodup
  noEdges : ∀ n ∈ nodes, n.children = [] ∧ n.parents = []

theorem Unwired.map {nodes : List Node} (h : Unwired nodes) {f : Node → Node}
    (hn : ∀ n, (f n).name = n.name)
    (he : ∀ n, (f n).children = n.children ∧ (f n).parents = n.parents) :
    Unwired (nodes.map f) where
  nodup := by simpa [Function.comp_def, hn] using h.nodup
  noEdges n hn := by
    obtain ⟨m, hm, rfl⟩ := List.mem_map.mp hn
    rw [(he m).1, (he m).2]
    exact h.noEdges m hm

namespace Registry

variable {r : Registry} {n : Node}

theorem find?_eq_none : r.find? name = none ↔ name ∉ r.nodes.map (·.name) := by
  simp [find?]

theorem unwired_insert (h : Unwired r.nodes) (hc : n.children = []) (hp : n.parents = []) :
    Unwired (r.insert n).nodes := by
  unfold insert
  split
  · exact h
  · next hn =>
    refine ⟨?_, ?_⟩
    · rw [List.map_append, List.nodup_append]
      refine ⟨h.nodup, by simp, ?_⟩
      rintro x hx y hy rfl
      simp only [List.map_cons, List.map_nil, List.mem_singleton] at hy
      exact find?_eq_none.mp hn (hy ▸ hx)
    · intro m hm
      rcases List.mem_append.mp hm with hm | hm
      · exact h.noEdges m hm
      · rw [List.mem_singleton.mp hm]
        exact ⟨hc, hp⟩

theorem unwired_addScene (h : Unwired r.nodes) : Unwired (r.addScene path scene).nodes := by
  unfold addScene
  simp only
  split
  · next n hn =>
    simp only [Node.ofScene?, Option.map_eq_some_iff] at hn
    obtain ⟨root, -, rfl⟩ := hn
    exact unwired_insert h rfl rfl
  · exact h

theorem unwired_addGroup (h : Unwired r.nodes) : Unwired (r.addGroup g).nodes := by
  unfold addGroup
  split
  · exact h
  · split
    · refine h.map (fun n => ?_) fun n => ?_
      · split <;> rfl
      · split <;> exact ⟨rfl, rfl⟩
    · exact unwired_insert h rfl rfl

theorem unwired_addDeclarations (h : Unwired r.nodes) : Unwired (r.addDeclarations ds).nodes := by
  unfold addDeclarations
  induction Group.ofDeclarations ds generalizing r with
  | nil => exact h
  | cons g gs ih => exact ih (unwired_addGroup h)

theorem Built.unwired (h : r.Built) : Unwired r.nodes := by
  induction h with
  | empty dir => exact ⟨List.nodup_nil, by simp⟩
  | warn _ _ ih => exact ih
  | addScene _ _ _ ih => exact unwired_addScene ih
  | addDeclarations _ _ ih => exact unwired_addDeclarations ih

theorem Built.unwired_graph (h : r.Built) (interfacePrefix : String) :
    Unwired (r.graph interfacePrefix).nodes :=
  h.unwired.map (fun _ => rfl) fun _ => ⟨rfl, rfl⟩

-- ---------------------------------------------------------------------------
-- The directory stays
-- ---------------------------------------------------------------------------

@[simp] theorem dir_warn (r : Registry) (w : Warning) : (r.warn w).dir = r.dir := rfl

@[simp] theorem dir_insert (r : Registry) (n : Node) : (r.insert n).dir = r.dir := by
  rw [Registry.insert]
  split <;> rfl

@[simp] theorem dir_addScene (r : Registry) (path : Path) (scene : Scene) :
    (r.addScene path scene).dir = r.dir := by
  simp only [Registry.addScene]
  split
  · exact dir_insert _ _
  · rfl

@[simp] theorem dir_addGroup (r : Registry) (g : Group) : (r.addGroup g).dir = r.dir := by
  simp only [Registry.addGroup]
  split
  · rfl
  · split
    · rfl
    · exact dir_insert _ _

theorem dir_addGroups (gs : List Group) (r : Registry) :
    (gs.foldl Registry.addGroup r).dir = r.dir := by
  induction gs generalizing r with
  | nil => rfl
  | cons g gs ih => rw [List.foldl_cons, ih, dir_addGroup]

theorem dir_addDeclarations (r : Registry) (ds : List Declaration) :
    (r.addDeclarations ds).dir = r.dir :=
  dir_addGroups _ r

end Registry

end SceneDiagram.Hierarchy
