import Mathlib.Data.List.Forall2
import SceneDiagram.Proofs.Hierarchy.Way

/-!
# Wiring a wired graph

`wire_wire`: on a graph in any state, whatever children and parents its nodes hold
already, wiring keeps them, adds the missing ones behind, and has nothing to add when it is
done again. What a node asks for does not depend on edges (`planned_wire`), and a child or
parent that is there stays as it is. So a graph that has been wired once or more is as
proper as after the first time (`Wired.proper`).
-/

namespace SceneDiagram.Hierarchy

-- ---------------------------------------------------------------------------
-- Adding what is there
-- ---------------------------------------------------------------------------

namespace Node

variable {n : Node}

theorem addChildren_of_hasChild {es : List (String × Edge)} (h : ∀ e ∈ es, n.hasChild e.1) :
    n.addChildren es = n := by
  induction es with
  | nil => rfl
  | cons e es ih =>
    obtain ⟨hfirst, hrest⟩ := List.forall_mem_cons.mp h
    rw [addChildren_cons, addChild_of_hasChild hfirst]
    exact ih hrest

theorem addParent_of_mem (h : parent ∈ n.parents) : n.addParent parent = (n, false) := if_pos h

theorem parents_addParent (h : parent ∉ n.parents) :
    (n.addParent parent).1.parents = n.parents ++ [parent] := by
  rw [addParent, if_neg h]

theorem addParents_of_mem {ms : List String} (h : ∀ m ∈ ms, m ∈ n.parents) :
    n.addParents ms = n := by
  induction ms with
  | nil => rfl
  | cons m ms ih =>
    obtain ⟨hfirst, hrest⟩ := List.forall_mem_cons.mp h
    rw [addParents_cons, addParent_of_mem hfirst]
    exact ih hrest

theorem parents_addParents (ms : List String) (n : Node) :
    (n.addParents ms).parents = n.parents ++ ms.eraseDups.filter (· ∉ n.parents) := by
  induction ms generalizing n with
  | nil => exact (List.append_nil _).symm
  | cons m ms ih =>
    rw [addParents_cons, ih, List.eraseDups_cons, eraseDups_filter, List.filter_cons,
      List.filter_filter]
    by_cases hm : m ∈ n.parents
    · rw [addParent_of_mem hm, if_neg (by simpa using hm)]
      congr 1
      refine List.filter_congr fun k _ => ?_
      by_cases hk : k = m <;> simp [hk, hm]
    · rw [parents_addParent hm, if_pos (by simpa using hm), List.append_assoc,
        List.singleton_append]
      congr 2
      refine List.filter_congr fun k _ => ?_
      by_cases hk : k = m <;> simp [hk]

end Node

namespace Graph

variable {g : Graph} {analysis : AnalysisConfig} {n : Node}

-- ---------------------------------------------------------------------------
-- Wiring on top of edges
-- ---------------------------------------------------------------------------

/-- What wiring makes of a node: it keeps its children and parents with their places, and
those that are missing come behind them. -/
structure Completes (g : Graph) (analysis : AnalysisConfig) (n wired : Node) : Prop where
  withoutEdges : wired.withoutEdges = n.withoutEdges
  children : wired.children =
    n.children ++ (firstEdges (g.planned analysis n)).filter (!n.hasChild ·.1)
  parents : wired.parents =
    n.parents ++ ((g.wire analysis).holders n.name).eraseDups.filter (· ∉ n.parents)

theorem holders_wire (g : Graph) (analysis : AnalysisConfig) (c : String) :
    (g.wire analysis).holders c = (Graph.mk (g.nodes.map (g.withChildren analysis))).holders c :=
  holders_map _ (fun _ => children_withParents) (fun _ => name_withParents) _ c

theorem wire_nodes (g : Graph) (analysis : AnalysisConfig) :
    (g.wire analysis).nodes = g.nodes.map fun n =>
      (g.withChildren analysis n).addParents ((g.wire analysis).holders n.name) := by
  simp only [holders_wire]
  rw [wire, List.map_map]
  refine List.map_congr_left fun n _ => ?_
  have hname : (g.withChildren analysis n).name = n.name :=
    Node.addChildren_keeps Node.name_addChild _ n
  rw [Function.comp_apply, withParents, hname]

theorem completes (g : Graph) (analysis : AnalysisConfig) (n : Node) :
    g.Completes analysis n
      ((g.withChildren analysis n).addParents ((g.wire analysis).holders n.name)) where
  withoutEdges := (Node.addParents_keeps Node.withoutEdges_addParent _ _).trans
    withoutEdges_withChildren
  children := (Node.addParents_keeps Node.children_addParent _ _).trans
    (Node.children_addChildren _ n)
  parents := by rw [Node.parents_addParents, parents_withChildren]

theorem forall₂_completes (g : Graph) (analysis : AnalysisConfig) :
    List.Forall₂ (g.Completes analysis) g.nodes (g.wire analysis).nodes := by
  rw [wire_nodes, List.forall₂_map_right_iff, List.forall₂_same]
  exact fun n _ => g.completes analysis n

theorem exists_completes (hn : n ∈ (g.wire analysis).nodes) :
    ∃ m ∈ g.nodes, g.Completes analysis m n := by
  rw [wire_nodes] at hn
  obtain ⟨m, hm, rfl⟩ := List.mem_map.mp hn
  exact ⟨m, hm, g.completes analysis m⟩

-- ---------------------------------------------------------------------------
-- Nothing is left to add
-- ---------------------------------------------------------------------------

theorem Completes.name (h : g.Completes analysis n wired) : wired.name = n.name :=
  congrArg (·.name) h.withoutEdges

theorem Completes.planned (h : g.Completes analysis n wired) :
    g.planned analysis wired = g.planned analysis n := by
  rw [← planned_withoutEdges, h.withoutEdges, planned_withoutEdges]

theorem Completes.hasChild (h : g.Completes analysis n wired) :
    ∀ e ∈ g.planned analysis wired, wired.hasChild e.1 := by
  rintro ⟨c, e⟩ he
  rw [h.planned] at he
  rw [hasChild_iff, h.children]
  -- What it asks for was there before or has been added.
  by_cases hc : n.hasChild c
  · obtain ⟨old, hold⟩ := hasChild_iff.mp hc
    exact ⟨old, List.mem_append_left _ hold⟩
  · obtain ⟨first, hfirst⟩ := find?_of_mem he
    have hmem := mem_firstEdges.mpr hfirst
    exact ⟨first, List.mem_append_right _ (List.mem_filter.mpr ⟨hmem, by simpa using hc⟩)⟩

theorem Completes.mem_parents (h : g.Completes analysis n wired) :
    ∀ m ∈ (g.wire analysis).holders wired.name, m ∈ wired.parents := by
  intro m hm
  rw [h.name] at hm
  rw [h.parents]
  by_cases hold : m ∈ n.parents
  · exact List.mem_append_left _ hold
  · exact List.mem_append_right _
      (List.mem_filter.mpr ⟨List.mem_eraseDups.mpr hm, by simpa using hold⟩)

theorem withChildren_wire (hn : n ∈ (g.wire analysis).nodes) :
    (g.wire analysis).withChildren analysis n = n := by
  obtain ⟨m, -, h⟩ := exists_completes hn
  refine Node.addChildren_of_hasChild fun e he => h.hasChild e ?_
  rwa [← planned_wire]

theorem withParents_wire (hn : n ∈ (g.wire analysis).nodes) :
    (g.wire analysis).withParents n = n := by
  obtain ⟨m, -, h⟩ := exists_completes hn
  exact Node.addParents_of_mem h.mem_parents

/-- Wiring keeps the edges that are there and adds those that are missing, so that a second
time it changes nothing: no child or edge, no parent, no place of either. -/
theorem wire_wire (g : Graph) (analysis : AnalysisConfig) :
    List.Forall₂ (g.Completes analysis) g.nodes (g.wire analysis).nodes ∧
      (g.wire analysis).wire analysis = g.wire analysis := by
  refine ⟨g.forall₂_completes analysis, ?_⟩
  have hlinked : (g.wire analysis).nodes.map ((g.wire analysis).withChildren analysis) =
      (g.wire analysis).nodes :=
    (List.map_congr_left fun n hn => withChildren_wire hn).trans (List.map_id _)
  have hparents : (g.wire analysis).nodes.map (g.wire analysis).withParents =
      (g.wire analysis).nodes :=
    (List.map_congr_left fun n hn => withParents_wire hn).trans (List.map_id _)
  calc (g.wire analysis).wire analysis
      = ⟨(g.wire analysis).nodes.map (g.wire analysis).withParents⟩ := by
        rw [wire, hlinked]
    _ = g.wire analysis := by rw [hparents]

-- ---------------------------------------------------------------------------
-- Graphs that wiring makes
-- ---------------------------------------------------------------------------

/-- The graphs that wiring makes, once or again, each time with settings of its own. -/
inductive Wired : Graph → Prop
  | first {r : Registry} (h : r.Built) (interfacePrefix : String) (analysis : AnalysisConfig) :
    Wired ((r.graph interfacePrefix).wire analysis)
  | again {g : Graph} (h : Wired g) (analysis : AnalysisConfig) : Wired (g.wire analysis)

theorem Completes.hasChild_iff (h : g.Completes analysis n wired) :
    wired.hasChild c ↔ n.hasChild c ∨ c ∈ (g.planned analysis n).map (·.1) := by
  rw [← mem_children_iff, h.children, List.map_append, List.mem_append, mem_children_iff]
  by_cases hc : n.hasChild c
  · simp [hc]
  · have hfirst : c ∈ (g.planned analysis n).map (·.1) ↔
        c ∈ (firstEdges (g.planned analysis n)).map (·.1) := by
      rw [map_fst_firstEdges, List.mem_eraseDups]
    refine or_congr_right (Iff.trans ?_ hfirst.symm)
    simp only [List.mem_map, List.mem_filter]
    constructor
    · rintro ⟨e, ⟨he, -⟩, rfl⟩
      exact ⟨e, he, rfl⟩
    · rintro ⟨e, he, rfl⟩
      exact ⟨e, ⟨he, by simpa using hc⟩, rfl⟩

theorem has_of_mem_planned (h : c ∈ (g.planned analysis n).map (·.1)) :
    g.has c ∧ c ≠ n.name := by
  obtain ⟨e, he, rfl⟩ := List.mem_map.mp h
  rw [planned, List.mem_filter, List.mem_append] at he
  refine ⟨?_, by simpa using he.2⟩
  rcases he.1 with hscene | hheld
  · exact (mem_contained.mp hscene).2.1
  · obtain ⟨p, -, hp, -⟩ := mem_held.mp hheld
    exact hp.2.has

theorem Completes.nodup_children (h : g.Completes analysis n wired)
    (hn : (n.children.map (·.1)).Nodup) : (wired.children.map (·.1)).Nodup := by
  rw [h.children, List.map_append, List.nodup_append]
  refine ⟨hn, (nodup_firstEdges _).sublist (List.filter_sublist.map _), ?_⟩
  rintro _ hold _ hnew rfl
  obtain ⟨e, he, hname⟩ := List.mem_map.mp hnew
  have hfresh := (List.mem_filter.mp he).2
  rw [hname, mem_children_iff.mp hold] at hfresh
  cases hfresh

/-- The root of a wired node is a root before, of which nothing takes hold. -/
theorem Completes.isRoot_iff (h : g.Completes analysis n wired)
    (hroot : n.isRoot ↔ ∀ p ∈ g.nodes, ¬ p.hasChild n.name) :
    wired.isRoot ↔ ∀ p ∈ (g.wire analysis).nodes, ¬ p.hasChild wired.name := by
  constructor
  · intro hwired p hp hc
    have hmem := h.mem_parents p.name (mem_holders.mpr ⟨p, hp, rfl, hc⟩)
    rw [List.isEmpty_iff.mp hwired] at hmem
    cases hmem
  · intro hnone
    have hold : n.parents = [] := by
      refine List.isEmpty_iff.mp (hroot.mpr fun p hp hc => ?_)
      have hfrom := g.completes analysis p
      refine hnone _ ?_ (h.name ▸ hfrom.hasChild_iff.mpr (.inl hc))
      rw [wire_nodes]
      exact List.mem_map_of_mem hp
    have hholders : (g.wire analysis).holders n.name = [] := by
      refine List.eq_nil_iff_forall_not_mem.mpr fun m hm => ?_
      obtain ⟨p, hp, -, hc⟩ := mem_holders.mp hm
      exact hnone p hp (h.name.symm ▸ hc)
    rw [Node.isRoot, h.parents, hold, hholders]
    rfl

theorem Proper.wire (hg : g.Proper) (analysis : AnalysisConfig) : (g.wire analysis).Proper where
  nodup := by
    rw [names_wire]
    exact hg.nodup
  childrenNodup n hn := by
    obtain ⟨m, hm, h⟩ := exists_completes hn
    exact h.nodup_children (hg.childrenNodup m hm)
  registered n hn c hc := by
    obtain ⟨m, hm, h⟩ := exists_completes hn
    rw [has_wire]
    rcases h.hasChild_iff.mp hc with hc | hc
    · exact hg.registered m hm c hc
    · exact (has_of_mem_planned hc).1
  notSelf n hn hc := by
    obtain ⟨m, hm, h⟩ := exists_completes hn
    rw [h.name] at hc
    rcases h.hasChild_iff.mp hc with hc | hc
    · exact hg.notSelf m hm hc
    · exact (has_of_mem_planned hc).2 rfl
  root n hn := by
    obtain ⟨m, hm, h⟩ := exists_completes hn
    exact h.isRoot_iff (hg.root m hm)

theorem Wired.proper (h : g.Wired) : g.Proper := by
  induction h with
  | first h interfacePrefix analysis => exact (h.unwired_graph interfacePrefix).proper_wire analysis
  | again _ analysis ih => exact ih.wire analysis

end Graph

end SceneDiagram.Hierarchy
