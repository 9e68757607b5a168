import SceneDiagram.Proofs.Hierarchy.FirstEdges
import SceneDiagram.Proofs.Hierarchy.Registry
import SceneDiagram.Proofs.Scene.Walk

/-!
# What wiring computes

`wire_edges`: a wired node holds exactly the other nodes that its scene contains
or that a property of its backing type resolves to, by the first edge of each,
and its parents are the nodes that hold it.
-/

namespace SceneDiagram.Hierarchy

-- ---------------------------------------------------------------------------
-- The edges of a node
-- ---------------------------------------------------------------------------

/-- A type names the registered node that is called like it. The type of a
member that has none is empty and names no node. -/
def Graph.Names (g : Graph) (typeName : String) : Prop := typeName ≠ "" ∧ g.has typeName

/-- A type resolves to the node that it names or, when it names none, to the one
that it names without the mark of interfaces. -/
def Graph.ResolvesTo (g : Graph) (mark typeName c : String) : Prop :=
  g.Names typeName ∧ typeName = c ∨
    ¬ g.Names typeName ∧ implementedType? mark typeName = some c ∧ g.has c

def Node.Contains (n : Node) (c : String) : Prop :=
  ∃ root, n.sceneRoot? = some root ∧ ∃ d ∈ root.descendants, d.name = c

/-- A property of a node, unless it is skipped, holds what its type resolves to. -/
def Graph.Holds (g : Graph) (analysis : AnalysisConfig) (p : Member) (c : String) : Prop :=
  ¬ p.hasAttribute analysis.skipAttribute ∧ g.ResolvesTo analysis.interfacePrefix p.valueType c

def Graph.FirstHolds (g : Graph) (analysis : AnalysisConfig) (n : Node) (p : Member) (c : String) :
    Prop :=
  ∃ before after, n.properties = before ++ p :: after ∧ g.Holds analysis p c ∧
    ∀ q ∈ before, ¬ g.Holds analysis q c

def Node.sceneNames (n : Node) : List String :=
  (n.sceneRoot?.map fun root => root.descendants.map (·.name)).getD []

def Graph.targets (g : Graph) (analysis : AnalysisConfig) (n : Node) : List String :=
  (n.properties.filter (!·.hasAttribute analysis.skipAttribute)).filterMap fun p =>
    g.resolve? p.valueType analysis.interfacePrefix

/-- The edges of a node are those that its scene and its backing type ask for. -/
structure Graph.WiredAt (g : Graph) (analysis : AnalysisConfig) (n : Node) : Prop where
  child : ∀ c, n.hasChild c ↔
    g.has c ∧ c ≠ n.name ∧ (n.Contains c ∨ ∃ p ∈ n.properties, g.Holds analysis p c)
  contained : ∀ c, (c, .contained) ∈ n.children ↔ n.hasChild c ∧ n.Contains c
  member : ∀ c l, (c, .member l) ∈ n.children ↔
    n.hasChild c ∧ ¬ n.Contains c ∧ ∃ p, g.FirstHolds analysis n p c ∧ p.name = l
  nodup : (n.children.map (·.1)).Nodup
  order : ∃ members, n.children =
      (n.sceneNames.filter fun c => g.has c ∧ c ≠ n.name).eraseDups.map (·, .contained) ++ members ∧
    members.map (·.1) =
      ((g.targets analysis n).filter fun c => c ≠ n.name ∧ c ∉ n.sceneNames).eraseDups
  parent : ∀ m, m ∈ n.parents ↔ ∃ p ∈ g.nodes, p.name = m ∧ p.hasChild n.name
  root : n.isRoot ↔ ∀ p ∈ g.nodes, ¬ p.hasChild n.name
  notSelf : ¬ n.hasChild n.name ∧ n.name ∉ n.parents

namespace Graph

variable {g : Graph} {analysis : AnalysisConfig} {n : Node}

theorem implementedType?_ne_empty (h : implementedType? mark typeName = some c) : c ≠ "" := by
  rintro rfl
  simp [implementedType?] at h

theorem resolve?_eq_some : g.resolve? typeName mark = some c ↔ g.ResolvesTo mark typeName c := by
  have hi : ∀ d ∈ (implementedType? mark typeName).toList, decide (d ≠ "") = true := by
    simpa using fun d h => implementedType?_ne_empty h
  rw [resolve?, List.filter_cons, List.filter_eq_self.mpr hi]
  by_cases h : g.Names typeName
  · simp [ResolvesTo, h, h.1, List.find?_cons_of_pos h.2]
  · have hskip : (if decide (typeName ≠ "") then
        typeName :: (implementedType? mark typeName).toList
        else (implementedType? mark typeName).toList).find? g.has =
        (implementedType? mark typeName).toList.find? g.has := by
      split
      · next hne => exact List.find?_cons_of_neg fun hg => h ⟨by simpa using hne, hg⟩
      · rfl
    rw [hskip]
    cases ht : implementedType? mark typeName with
    | none => simp [ResolvesTo, h, ht]
    | some d =>
      cases hg : g.has d with
      | true =>
        simp only [ResolvesTo, h, ht, Option.toList_some, List.find?_cons, hg, Option.some.injEq,
          false_and, not_false_eq_true, true_and, false_or]
        exact ⟨fun hd => ⟨hd, hd ▸ hg⟩, fun hd => hd.1⟩
      | false =>
        simp only [ResolvesTo, h, ht, Option.toList_some, List.find?_cons, hg, List.find?_nil,
          Option.some.injEq, false_and, not_false_eq_true, true_and, false_or, reduceCtorEq,
          false_iff, not_and]
        rintro rfl hc
        exact Bool.false_ne_true (hg.symm.trans hc)

theorem ResolvesTo.has (h : g.ResolvesTo mark typeName c) : g.has c := by
  rcases h with ⟨h, rfl⟩ | ⟨-, -, h⟩
  · exact h.2
  · exact h

theorem mem_sceneNames : c ∈ n.sceneNames ↔ n.Contains c := by
  cases h : n.sceneRoot? <;> simp [Node.sceneNames, Node.Contains, h]

theorem contained_eq : g.contained n = (n.sceneNames.filter g.has).map (·, .contained) := by
  simp [contained, Node.sceneNames]

theorem mem_contained :
    (c, e) ∈ g.contained n ↔ e = .contained ∧ g.has c ∧ n.Contains c := by
  simp only [contained_eq, ← mem_sceneNames, List.mem_map, List.mem_filter, Prod.mk.injEq]
  constructor
  · rintro ⟨_, ⟨hs, hg⟩, rfl, rfl⟩
    exact ⟨rfl, hg, hs⟩
  · rintro ⟨rfl, hg, hs⟩
    exact ⟨c, ⟨hs, hg⟩, rfl, rfl⟩

theorem mem_held : (c, e) ∈ g.held analysis n ↔
    ∃ p ∈ n.properties, g.Holds analysis p c ∧ e = .member p.name := by
  simp only [held, Holds, List.mem_filterMap, List.mem_filter, Option.map_eq_some_iff,
    Prod.mk.injEq, resolve?_eq_some, Bool.not_eq_true', Bool.not_eq_true]
  constructor
  · rintro ⟨p, ⟨hp, hs⟩, _, hr, rfl, rfl⟩
    exact ⟨p, hp, ⟨hs, hr⟩, rfl⟩
  · rintro ⟨p, hp, ⟨hs, hr⟩, rfl⟩
    exact ⟨p, ⟨hp, hs⟩, c, hr, rfl, rfl⟩

theorem holds_iff {p : Member} : (!p.hasAttribute analysis.skipAttribute &&
    ((g.resolve? p.valueType analysis.interfacePrefix).map (·, Edge.member p.name)).any
      (·.1 == c)) = true ↔ g.Holds analysis p c := by
  rw [Holds, ← resolve?_eq_some]
  cases g.resolve? p.valueType analysis.interfacePrefix <;> simp

/-- The first edge to a child among those held comes from the first property
that holds it. -/
theorem find?_held : (g.held analysis n).find? (·.1 == c) = some (c, e) ↔
    ∃ p, g.FirstHolds analysis n p c ∧ e = .member p.name := by
  rw [held, List.find?_filterMap, List.find?_filter, Option.bind_eq_some_iff]
  refine exists_congr fun p => ?_
  simp only [List.find?_eq_some_iff_append, Bool.decide_and, Bool.decide_eq_true, holds_iff,
    FirstHolds]
  simp only [Bool.not_eq_true', ← Bool.not_eq_true, holds_iff]
  constructor
  · rintro ⟨⟨hp, before, after, hs, hb⟩, he⟩
    simp only [Option.map_eq_some_iff, Prod.mk.injEq] at he
    obtain ⟨_, -, -, rfl⟩ := he
    exact ⟨⟨before, after, hs, hp, hb⟩, rfl⟩
  · rintro ⟨⟨before, after, hs, hp, hb⟩, rfl⟩
    exact ⟨⟨hp, before, after, hs, hb⟩, by rw [resolve?_eq_some.mpr hp.2, Option.map_some]⟩

theorem exists_firstHolds :
    (∃ p, g.FirstHolds analysis n p c) ↔ ∃ p ∈ n.properties, g.Holds analysis p c := by
  constructor
  · rintro ⟨p, before, after, hs, hp, -⟩
    exact ⟨p, by simp [hs], hp⟩
  · rintro ⟨p, hm, hp⟩
    obtain ⟨e, he⟩ := find?_of_mem (mem_held.mpr ⟨p, hm, hp, rfl⟩)
    obtain ⟨q, hq, -⟩ := find?_held.mp he
    exact ⟨q, hq⟩

theorem find?_contained : (g.contained n).find? (·.1 == c) = some (c, e) ↔
    e = .contained ∧ g.has c ∧ n.Contains c := by
  constructor
  · exact fun h => mem_contained.mp (List.mem_of_find?_eq_some h)
  · rintro ⟨rfl, h⟩
    obtain ⟨e, he⟩ := find?_of_mem (mem_contained.mpr ⟨rfl, h⟩)
    rw [he, (mem_contained.mp (List.mem_of_find?_eq_some he)).1]

def planned (g : Graph) (analysis : AnalysisConfig) (n : Node) : List (String × Edge) :=
  (g.contained n ++ g.held analysis n).filter (·.1 ≠ n.name)

theorem find?_contained_eq_none :
    (g.contained n).find? (·.1 == c) = none ↔ ¬ (g.has c ∧ n.Contains c) := by
  constructor
  · intro h hc
    rw [find?_contained.mpr ⟨rfl, hc⟩] at h
    cases h
  · intro h
    rw [List.find?_eq_none]
    rintro ⟨d, e⟩ hm hd
    obtain rfl : d = c := eq_of_beq hd
    exact h (mem_contained.mp hm).2

theorem mem_firstEdges_planned : (c, e) ∈ firstEdges (g.planned analysis n) ↔
    c ≠ n.name ∧ g.has c ∧ (n.Contains c ∧ e = .contained ∨
      ¬ n.Contains c ∧ ∃ p, g.FirstHolds analysis n p c ∧ e = .member p.name) := by
  rw [mem_firstEdges, planned, List.find?_filter]
  by_cases hc : c = n.name
  · have hnone : (g.contained n ++ g.held analysis n).find?
        (fun a => decide (decide (a.1 ≠ n.name) ∧ (a.1 == c))) = none := by
      simp [hc]
    rw [hnone]
    simp [hc]
  have hsome : (fun a : String × Edge => decide (decide (a.1 ≠ n.name) = true ∧ (a.1 == c) = true)) =
      (·.1 == c) := by
    funext a
    by_cases ha : a.1 = c <;> simp [ha, hc]
  rw [hsome, List.find?_append, Option.or_eq_some_iff, find?_contained, find?_contained_eq_none,
    find?_held]
  have hhas : ∀ p, g.FirstHolds analysis n p c → g.has c :=
    fun p ⟨_, _, _, hp, _⟩ => hp.2.has
  constructor
  · rintro (⟨rfl, hg, hn⟩ | ⟨hn, p, hp, rfl⟩)
    · exact ⟨hc, hg, .inl ⟨hn, rfl⟩⟩
    · exact ⟨hc, hhas p hp, .inr ⟨fun h => hn ⟨hhas p hp, h⟩, p, hp, rfl⟩⟩
  · rintro ⟨-, hg, ⟨hn, rfl⟩ | ⟨hn, p, hp, rfl⟩⟩
    · exact .inl ⟨rfl, hg, hn⟩
    · exact .inr ⟨fun h => hn h.2, p, hp, rfl⟩

end Graph

-- ---------------------------------------------------------------------------
-- What wiring changes
-- ---------------------------------------------------------------------------

namespace Node

def withoutEdges (n : Node) : Node := { n with children := [], parents := [] }

theorem withoutEdges_addChild (n : Node) (c : String) (e : Edge) :
    (n.addChild c e).1.withoutEdges = n.withoutEdges := by
  unfold addChild; split <;> rfl

theorem withoutEdges_addParent (n : Node) (m : String) :
    (n.addParent m).1.withoutEdges = n.withoutEdges := by
  unfold addParent; split <;> rfl

theorem parents_addChild (n : Node) (c : String) (e : Edge) :
    (n.addChild c e).1.parents = n.parents := by
  unfold addChild; split <;> rfl

theorem children_addParent (n : Node) (m : String) : (n.addParent m).1.children = n.children := by
  unfold addParent; split <;> rfl

theorem mem_parents_addParent : m ∈ (addParent n k).1.parents ↔ m ∈ n.parents ∨ m = k := by
  unfold addParent
  split
  · next hk => exact ⟨.inl, fun h => h.elim id fun h => h ▸ hk⟩
  · simp

theorem addChildren_keeps {f : Node → α} (hf : ∀ n c e, f (addChild n c e).1 = f n)
    (es : List (String × Edge)) (n : Node) : f (n.addChildren es) = f n := by
  induction es generalizing n with
  | nil => rfl
  | cons e es ih => exact (ih _).trans (hf n e.1 e.2)

theorem addParents_keeps {f : Node → α} (hf : ∀ n m, f (addParent n m).1 = f n)
    (ms : List String) (n : Node) : f (n.addParents ms) = f n := by
  induction ms generalizing n with
  | nil => rfl
  | cons m ms ih => exact (ih _).trans (hf n m)

theorem mem_parents_addParents {n : Node} :
    m ∈ (n.addParents ms).parents ↔ m ∈ n.parents ∨ m ∈ ms := by
  induction ms generalizing n with
  | nil => simp [addParents]
  | cons k ms ih => rw [addParents_cons, ih, mem_parents_addParent, List.mem_cons, or_assoc]

end Node

namespace Graph

variable {g : Graph} {analysis : AnalysisConfig} {n : Node}

theorem withoutEdges_withChildren :
    (g.withChildren analysis n).withoutEdges = n.withoutEdges :=
  Node.addChildren_keeps Node.withoutEdges_addChild _ n

theorem parents_withChildren : (g.withChildren analysis n).parents = n.parents :=
  Node.addChildren_keeps Node.parents_addChild _ n

theorem children_withChildren (h : n.children = []) :
    (g.withChildren analysis n).children = firstEdges (g.planned analysis n) := by
  have hn : ∀ c, n.hasChild c = false := by simp [Node.hasChild, h]
  refine (Node.children_addChildren _ n).trans ?_
  simp [h, hn, planned]

theorem withoutEdges_withParents : (g.withParents n).withoutEdges = n.withoutEdges :=
  Node.addParents_keeps Node.withoutEdges_addParent _ n

theorem children_withParents : (g.withParents n).children = n.children :=
  Node.addParents_keeps Node.children_addParent _ n

theorem mem_parents_withParents :
    m ∈ (g.withParents n).parents ↔ m ∈ n.parents ∨ m ∈ g.holders n.name :=
  Node.mem_parents_addParents

theorem withoutEdges_wire (g : Graph) (analysis : AnalysisConfig) :
    (g.wire analysis).nodes.map (·.withoutEdges) = g.nodes.map (·.withoutEdges) := by
  simp [wire, withoutEdges_withParents, withoutEdges_withChildren]

theorem exists_of_mem_wire (hn : n ∈ (g.wire analysis).nodes) :
    ∃ m ∈ g.nodes, m.withoutEdges = n.withoutEdges := by
  have hmem := List.mem_map_of_mem (f := Node.withoutEdges) hn
  rw [withoutEdges_wire] at hmem
  exact List.mem_map.mp hmem

theorem names_wire : (g.wire analysis).nodes.map (·.name) = g.nodes.map (·.name) := by
  have h := congrArg (List.map (·.name)) (g.withoutEdges_wire analysis)
  simpa [Function.comp_def, Node.withoutEdges] using h

theorem has_iff : g.has c ↔ c ∈ g.nodes.map (·.name) := by
  simp [has, find?]

@[simp] theorem has_wire : (g.wire analysis).has = g.has := by
  funext c
  rw [Bool.eq_iff_iff, has_iff, has_iff, names_wire]

theorem planned_wire : (g.wire analysis).planned analysis n = g.planned analysis n := by
  simp [planned, contained, held, resolve?]

theorem planned_withoutEdges : g.planned analysis n.withoutEdges = g.planned analysis n := rfl

theorem children_wire (h : Unwired g.nodes) (hn : n ∈ (g.wire analysis).nodes) :
    n.children = firstEdges ((g.wire analysis).planned analysis n) := by
  simp only [wire, List.map_map, List.mem_map, Function.comp] at hn
  obtain ⟨m, hm, rfl⟩ := hn
  rw [children_withParents, children_withChildren (h.noEdges m hm).1, planned_wire,
    ← planned_withoutEdges (n := withParents _ _), withoutEdges_withParents,
    withoutEdges_withChildren, planned_withoutEdges]

theorem name_withParents : (g.withParents n).name = n.name :=
  Node.addParents_keeps Node.name_addParent _ n

theorem holders_map (f : Node → Node) (hc : ∀ n, (f n).children = n.children)
    (hn : ∀ n, (f n).name = n.name) (nodes : List Node) (c : String) :
    (Graph.mk (nodes.map f)).holders c = (Graph.mk nodes).holders c := by
  simp [holders, List.filter_map, Function.comp_def, Node.hasChild, hc, hn]

theorem mem_parents_wire (h : Unwired g.nodes) (hn : n ∈ (g.wire analysis).nodes) :
    m ∈ n.parents ↔ m ∈ (g.wire analysis).holders n.name := by
  simp only [wire, List.map_map, List.mem_map, Function.comp] at hn
  obtain ⟨k, hk, rfl⟩ := hn
  rw [mem_parents_withParents, parents_withChildren, (h.noEdges k hk).2, wire,
    holders_map _ (fun _ => children_withParents) (fun _ => name_withParents),
    name_withParents]
  simp

theorem mem_holders : m ∈ g.holders c ↔ ∃ p ∈ g.nodes, p.name = m ∧ p.hasChild c := by
  simp only [holders, List.mem_map, List.mem_filter, and_assoc]
  exact exists_congr fun p => and_congr_right fun _ => and_comm

theorem map_fst_held : (g.held analysis n).map (·.1) = g.targets analysis n := by
  simp [held, targets, List.map_filterMap, Function.comp_def]

theorem has_of_mem_targets (h : c ∈ g.targets analysis n) : g.has c := by
  simp only [targets, List.mem_filterMap] at h
  obtain ⟨p, -, hp⟩ := h
  exact (resolve?_eq_some.mp hp).has

theorem firstEdges_contained (names : List String) :
    firstEdges (names.map (·, .contained)) = names.eraseDups.map (·, .contained) := by
  have hall : ∀ e ∈ firstEdges (names.map (·, .contained)), (e.1, .contained) = id e := by
    rintro ⟨c, e⟩ he
    have hm := List.mem_of_find?_eq_some (mem_firstEdges.mp he)
    simp only [List.mem_map, Prod.mk.injEq] at hm
    obtain ⟨_, -, rfl, rfl⟩ := hm
    rfl
  have hnames := map_fst_firstEdges (names.map (·, .contained))
  rw [List.map_map, Function.comp_def, List.map_id'] at hnames
  rw [← hnames, List.map_map]
  exact ((List.map_congr_left hall).trans (List.map_id _)).symm

theorem order_planned : ∃ members, firstEdges (g.planned analysis n) =
      (n.sceneNames.filter fun c => g.has c ∧ c ≠ n.name).eraseDups.map (·, .contained) ++ members ∧
    members.map (·.1) =
      ((g.targets analysis n).filter fun c => c ≠ n.name ∧ c ∉ n.sceneNames).eraseDups := by
  have hscene : (g.contained n).filter (·.1 ≠ n.name) =
      (n.sceneNames.filter fun c => g.has c ∧ c ≠ n.name).map (·, .contained) := by
    rw [contained_eq, List.filter_map, List.filter_filter]
    simp [and_comm]
  rw [planned, List.filter_append, firstEdges_append, hscene, firstEdges_contained]
  refine ⟨_, rfl, ?_⟩
  have hheld : ((g.held analysis n).filter (·.1 ≠ n.name)).map (·.1) =
      (g.targets analysis n).filter (· ≠ n.name) := by
    rw [← map_fst_held, List.filter_map, Function.comp_def]
  have hnot (names : List String) (es : List (String × Edge)) :
      (es.filter (·.1 ∉ names)).map (·.1) = (es.map (·.1)).filter (· ∉ names) := by
    rw [List.filter_map, Function.comp_def]
  rw [hnot, map_fst_firstEdges, ← eraseDups_filter, hheld, List.filter_filter]
  congr 1
  refine List.filter_congr fun c hc => ?_
  by_cases hne : c = n.name
  · simp [hne]
  · simp [hne, has_of_mem_targets hc]

-- ---------------------------------------------------------------------------
-- The theorem
-- ---------------------------------------------------------------------------

theorem hasChild_iff : n.hasChild c ↔ ∃ e, (c, e) ∈ n.children := by
  simp [Node.hasChild]

theorem mem_children_wire (h : Unwired g.nodes) (hn : n ∈ (g.wire analysis).nodes) :
    (c, e) ∈ n.children ↔ c ≠ n.name ∧ (g.wire analysis).has c ∧
      (n.Contains c ∧ e = .contained ∨
        ¬ n.Contains c ∧ ∃ p, (g.wire analysis).FirstHolds analysis n p c ∧ e = .member p.name) := by
  rw [children_wire h hn, mem_firstEdges_planned]

theorem hasChild_wire (h : Unwired g.nodes) (hn : n ∈ (g.wire analysis).nodes) :
    n.hasChild c ↔ (g.wire analysis).has c ∧ c ≠ n.name ∧
      (n.Contains c ∨ ∃ p ∈ n.properties, (g.wire analysis).Holds analysis p c) := by
  rw [hasChild_iff, ← exists_firstHolds]
  simp only [mem_children_wire h hn]
  constructor
  · rintro ⟨_, hc, hg, ⟨hs, -⟩ | ⟨-, p, hp, -⟩⟩
    · exact ⟨hg, hc, .inl hs⟩
    · exact ⟨hg, hc, .inr ⟨p, hp⟩⟩
  · rintro ⟨hg, hc, hp⟩
    by_cases hs : n.Contains c
    · exact ⟨.contained, hc, hg, .inl ⟨hs, rfl⟩⟩
    · obtain ⟨p, hp⟩ := hp.resolve_left hs
      exact ⟨.member p.name, hc, hg, .inr ⟨hs, p, hp, rfl⟩⟩

theorem hasChild_self_wire (h : Unwired g.nodes) (hn : n ∈ (g.wire analysis).nodes) :
    ¬ n.hasChild n.name :=
  fun hc => ((hasChild_wire h hn).mp hc).2.1 rfl

theorem mem_parents_wire_iff (h : Unwired g.nodes) (hn : n ∈ (g.wire analysis).nodes) :
    m ∈ n.parents ↔ ∃ p ∈ (g.wire analysis).nodes, p.name = m ∧ p.hasChild n.name :=
  (mem_parents_wire h hn).trans mem_holders

theorem isRoot_wire (h : Unwired g.nodes) (hn : n ∈ (g.wire analysis).nodes) :
    n.isRoot ↔ ∀ p ∈ (g.wire analysis).nodes, ¬ p.hasChild n.name := by
  rw [Node.isRoot, List.isEmpty_iff, List.eq_nil_iff_forall_not_mem]
  simp only [mem_parents_wire_iff h hn]
  exact ⟨fun hr p hp hc => hr p.name ⟨p, hp, rfl, hc⟩, fun hr _ ⟨p, hp, _, hc⟩ => hr p hp hc⟩

theorem wiredAt_wire (h : Unwired g.nodes) (hn : n ∈ (g.wire analysis).nodes) :
    (g.wire analysis).WiredAt analysis n where
  child c := hasChild_wire h hn
  contained c := by
    constructor
    · intro hc
      rcases (mem_children_wire h hn).mp hc with ⟨-, -, ⟨hs, -⟩ | ⟨-, _, -, he⟩⟩
      · exact ⟨hasChild_iff.mpr ⟨_, hc⟩, hs⟩
      · cases he
    · rintro ⟨hc, hs⟩
      obtain ⟨hg, hne, -⟩ := (hasChild_wire h hn).mp hc
      exact (mem_children_wire h hn).mpr ⟨hne, hg, .inl ⟨hs, rfl⟩⟩
  member c l := by
    constructor
    · intro hc
      rcases (mem_children_wire h hn).mp hc with ⟨-, -, ⟨-, he⟩ | ⟨hs, p, hp, he⟩⟩
      · cases he
      · exact ⟨hasChild_iff.mpr ⟨_, hc⟩, hs, p, hp, (Edge.member.inj he).symm⟩
    · rintro ⟨hc, hs, p, hp, rfl⟩
      obtain ⟨hg, hne, -⟩ := (hasChild_wire h hn).mp hc
      exact (mem_children_wire h hn).mpr ⟨hne, hg, .inr ⟨hs, p, hp, rfl⟩⟩
  nodup := by
    rw [children_wire h hn]
    exact nodup_firstEdges _
  order := by
    rw [children_wire h hn]
    exact order_planned
  parent m := mem_parents_wire_iff h hn
  root := isRoot_wire h hn
  notSelf := by
    refine ⟨hasChild_self_wire h hn, fun hm => ?_⟩
    obtain ⟨p, hp, hpn, hc⟩ := (mem_parents_wire_iff h hn).mp hm
    exact hasChild_self_wire h hp (hpn ▸ hc)

end Graph

/-- Wiring computes exactly the edges that are asked for, and changes nothing
else. -/
theorem wire_edges {r : Registry} (h : r.Built) (interfacePrefix : String)
    (analysis : AnalysisConfig) :
    ((r.graph interfacePrefix).wire analysis).nodes.map (·.withoutEdges) =
        (r.graph interfacePrefix).nodes ∧
      (((r.graph interfacePrefix).wire analysis).nodes.map (·.name)).Nodup ∧
      ∀ n ∈ ((r.graph interfacePrefix).wire analysis).nodes,
        ((r.graph interfacePrefix).wire analysis).WiredAt analysis n := by
  have hu := h.unwired_graph interfacePrefix
  refine ⟨?_, ?_, fun n hn => Graph.wiredAt_wire hu hn⟩
  · rw [Graph.withoutEdges_wire]
    refine (List.map_congr_left fun n hn => ?_).trans (List.map_id _)
    obtain ⟨hc, hp⟩ := hu.noEdges n hn
    rw [Node.withoutEdges, ← hc, ← hp, id]
  · rw [Graph.names_wire]
    exact hu.nodup

theorem wire_edges_level :
    let level : Scene := { root := some { name := "Level", typeName := "Node", children := [
      { name := "Player", typeName := "Node" }] } }
    let player : Scene := { root := some { name := "Player", typeName := "Node" } }
    let r := (Registry.addScene { dir := ⟨"p"⟩ } ⟨"p/Level.tscn"⟩ level).addScene
      ⟨"p/Player.tscn"⟩ player
    let w := (r.graph "I").wire {}
    r.Built ∧ w.nodes.map (·.name) = ["Level", "Player"] ∧ ∀ n ∈ w.nodes, w.WiredAt {} n := by
  intro level player r w
  have hb : r.Built := ((Registry.Built.empty _).addScene _ level).addScene _ player
  exact ⟨hb, Graph.names_wire.trans (by decide), (wire_edges hb "I" {}).2.2⟩

end SceneDiagram.Hierarchy
