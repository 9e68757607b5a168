import SceneDiagram.Proofs.Hierarchy.Registration

/-!
# What a registry records

A registry can be read off the fates of what has been registered (`Registry.Records.add`):
the registered inputs have a node each, in which a scene has the declarations of the first
group of its name, and duplicates and scenes without a root have a warning each.
-/

namespace SceneDiagram.Hierarchy

def firstGroup? (inputs : List Input) (name : String) : Option Group :=
  (inputs.filterMap (·.group?)).find? (·.file.nodeName? == some name)

def completed (inputs : List Input) (n : Node) : Node :=
  if n.isScene then n.attach ((firstGroup? inputs n.name).elim [] (·.declarations)) else n

variable {dir : Path} {earlier inputs : List Input} {i : Input} {g : Group} {n : Node}
  {name : String}

-- ---------------------------------------------------------------------------
-- Nodes
-- ---------------------------------------------------------------------------

@[simp] theorem attach_nil (n : Node) : n.attach [] = n := by
  simp [Node.attach]

@[simp] theorem name_completed : (completed inputs n).name = n.name := by
  unfold completed
  split <;> rfl

@[simp] theorem isScene_completed : (completed inputs n).isScene = n.isScene := by
  unfold completed
  split <;> rfl

@[simp] theorem file_completed : (completed inputs n).file = n.file := by
  unfold completed
  split <;> rfl

theorem mem_registered : n ∈ (fates [] inputs).filterMap (registered? dir) ↔
    ∃ i name, (i, .registered name) ∈ fates [] inputs ∧ i.node dir name = n := by
  rw [List.mem_filterMap]
  constructor
  · rintro ⟨⟨i, f⟩, hmem, hnode⟩
    cases f with
    | registered name => exact ⟨i, name, hmem, Option.some.inj hnode⟩
    | attached _ | duplicate _ _ | rootless | skipped => cases hnode
  · rintro ⟨i, name, hmem, rfl⟩
    exact ⟨_, hmem, rfl⟩

theorem exists_holder?_of_mem_registered
    (h : n ∈ (fates [] inputs).filterMap (registered? dir)) :
    ∃ i, holder? inputs n.name = some i ∧ i.node dir n.name = n := by
  obtain ⟨i, name, hmem, rfl⟩ := mem_registered.mp h
  exact ⟨i, by rw [Input.name_node, holder?_of_registered hmem], by rw [Input.name_node]⟩

-- ---------------------------------------------------------------------------
-- First groups
-- ---------------------------------------------------------------------------

theorem mem_groups : g ∈ inputs.filterMap (·.group?) ↔ .group g ∈ inputs := by
  rw [List.mem_filterMap]
  constructor
  · rintro ⟨i, hi, hg⟩
    cases i with
    | scene _ _ => cases hg
    | group k =>
      cases hg
      exact hi
  · intro hg
    exact ⟨_, hg, rfl⟩

theorem firstGroup?_eq_none : firstGroup? inputs name = none ↔
    ∀ g, .group g ∈ inputs → g.file.nodeName? ≠ some name := by
  rw [firstGroup?, List.find?_eq_none]
  constructor
  · intro h g hg hname
    exact h g (mem_groups.mpr hg) (beq_iff_eq.mpr hname)
  · intro h g hg hname
    exact h g (mem_groups.mp hg) (beq_iff_eq.mp hname)

theorem awaited_eq : awaited inputs name =
    ((holder? inputs name).any (·.isScene) && (firstGroup? inputs name).isNone) := by
  rw [awaited]
  congr 1
  rw [Bool.eq_iff_iff, Option.isNone_iff_eq_none, firstGroup?_eq_none, Bool.not_eq_true',
    List.any_eq_false]
  constructor
  · intro h g hg hname
    exact h _ hg (Bool.and_eq_true_iff.mpr ⟨Input.asks_iff.mpr hname, rfl⟩)
  · intro h i hi hasks
    cases i with
    | scene _ _ => simp [Input.isScene] at hasks
    | group g => exact h g hi (Input.asks_iff.mp (Bool.and_eq_true_iff.mp hasks).1)

theorem firstGroup?_of_free (h : holder? inputs name = none) : firstGroup? inputs name = none := by
  rw [firstGroup?_eq_none]
  intro g hg hname
  exact List.find?_eq_none.mp h _ hg (Input.asks_iff.mpr hname)

theorem firstGroup?_append (inputs : List Input) (i : Input) (name : String) :
    firstGroup? (inputs ++ [i]) name =
      (firstGroup? inputs name).or (i.group?.filter (·.file.nodeName? == some name)) := by
  rw [firstGroup?, List.filterMap_append, List.find?_append, ← firstGroup?]
  congr 1
  cases i with
  | scene _ _ => rfl
  | group g => cases h : g.file.nodeName? == some name <;> simp [Input.group?, Option.filter, h]

theorem completed_congr (h : firstGroup? inputs n.name = firstGroup? earlier n.name) :
    completed inputs n = completed earlier n := by
  rw [completed, completed, h]

theorem completed_of_none (h : firstGroup? inputs n.name = none) : completed inputs n = n := by
  unfold completed
  split
  · rw [h, Option.elim_none, attach_nil]
  · rfl

-- ---------------------------------------------------------------------------
-- One input more
-- ---------------------------------------------------------------------------

theorem completed_append_scene (inputs : List Input) (path : Path) (scene : Scene) (n : Node) :
    completed (inputs ++ [.scene path scene]) n = completed inputs n := by
  refine completed_congr ?_
  rw [firstGroup?_append]
  exact Option.or_none

theorem completed_append_group (hn : n ∈ (fates [] inputs).filterMap (registered? dir)) :
    completed (inputs ++ [.group g]) n =
      if fate inputs (.group g) = .attached n.name then (completed inputs n).attach g.declarations
      else completed inputs n := by
  obtain ⟨i, hholder, hnode⟩ := exists_holder?_of_mem_registered hn
  have hkind : n.isScene = i.isScene := by rw [← hnode, Input.isScene_node]
  -- Only the first group of a name completes anything, and only a scene that waits for it.
  by_cases hasks : g.file.nodeName? = some n.name
  · cases hfirst : firstGroup? inputs n.name with
    | none =>
      have hnew : firstGroup? (inputs ++ [.group g]) n.name = some g := by
        rw [firstGroup?_append, hfirst]
        simp [Input.group?, Option.filter, hasks]
      have hawaited : awaited inputs n.name = n.isScene := by
        rw [awaited_eq, hholder, hfirst, hkind, Option.any_some, Option.isNone_none, Bool.and_true]
      rw [completed_of_none hfirst]
      by_cases hscene : n.isScene
      · rw [if_pos (fate_group_eq_attached.mpr ⟨hasks, hawaited ▸ hscene⟩), completed,
          if_pos hscene, hnew, Option.elim_some]
      · rw [if_neg fun h => hscene (hawaited ▸ (fate_group_eq_attached.mp h).2), completed,
          if_neg hscene]
    | some k =>
      have hsame : firstGroup? (inputs ++ [.group g]) n.name = firstGroup? inputs n.name := by
        rw [firstGroup?_append, hfirst, Option.some_or]
      have hawaited : awaited inputs n.name = false := by
        rw [awaited_eq, hfirst, Option.isNone_some, Bool.and_false]
      rw [completed_congr hsame, if_neg fun h => ?_]
      have hwaits := (fate_group_eq_attached.mp h).2
      rw [hawaited] at hwaits
      cases hwaits
  · have hsame : firstGroup? (inputs ++ [.group g]) n.name = firstGroup? inputs n.name := by
      rw [firstGroup?_append]
      simp [Input.group?, Option.filter, hasks]
    rw [completed_congr hsame, if_neg fun h => hasks (fate_group_eq_attached.mp h).1]

theorem completed_append (hn : n ∈ (fates [] inputs).filterMap (registered? dir)) (i : Input) :
    completed (inputs ++ [i]) n =
      if fate inputs i = .attached n.name then (completed inputs n).attach i.declarations
      else completed inputs n := by
  cases i with
  | scene path scene =>
    have hfate : fate inputs (.scene path scene) ≠ .attached n.name := by
      intro h
      obtain ⟨-, hgroup, -⟩ := fate_eq_iff.mp h
      exact hgroup rfl
    rw [completed_append_scene, if_neg hfate]
  | group g => exact completed_append_group hn

namespace Registry

variable {r : Registry}

/-- What a registry holds and warns of once these inputs have been registered. -/
structure Records (dir : Path) (inputs : List Input) (r : Registry) : Prop where
  holds : Holds dir inputs r
  nodes : r.nodes = ((fates [] inputs).filterMap (registered? dir)).map (completed inputs)
  warnings : r.warnings = (fates [] inputs).filterMap (warningOf? dir)

theorem Records.empty (dir : Path) : Records dir [] { dir := dir } := ⟨.empty dir, rfl, rfl⟩

theorem filterMap_fates_append (f : Input × Fate → Option α) (inputs : List Input) (i : Input) :
    (fates [] (inputs ++ [i])).filterMap f =
      (fates [] inputs).filterMap f ++ (f (i, fate inputs i)).toList := by
  rw [fates_append, List.filterMap_append, List.nil_append]
  cases h : f (i, fate inputs i) <;> simp [h]

theorem completed_of_mem_registered? (i : Input) :
    ∀ n ∈ (registered? dir (i, fate inputs i)).toList, completed (inputs ++ [i]) n = n := by
  intro n hn
  cases hf : fate inputs i with
  | registered name =>
    obtain ⟨hname, hfree⟩ := fate_eq_iff.mp hf
    rw [hf] at hn
    obtain rfl : n = i.node dir name := by simpa [registered?] using hn
    cases i with
    | scene path scene =>
      -- The name is new, so no group has asked for it yet.
      rw [completed_append_scene, completed_of_none]
      rw [Input.name_node, firstGroup?_of_free hfree]
    | group g => rfl
  | attached _ | duplicate _ _ | rootless | skipped =>
    rw [hf] at hn
    cases hn

theorem Records.nodes_add (h : Records dir inputs r) (i : Input) :
    (r.add i).nodes = ((fates [] (inputs ++ [i])).filterMap (registered? dir)).map
      (completed (inputs ++ [i])) := by
  have hold : ((fates [] inputs).filterMap (registered? dir)).map (completed (inputs ++ [i])) =
      r.nodes.map fun n =>
        if fate inputs i = .attached n.name then n.attach i.declarations else n := by
    rw [h.nodes, List.map_map]
    refine List.map_congr_left fun n hn => ?_
    rw [completed_append hn, Function.comp_apply, name_completed]
  have hnew : (registered? dir (i, fate inputs i)).toList.map (completed (inputs ++ [i])) =
      (registered? dir (i, fate inputs i)).toList :=
    (List.map_congr_left (completed_of_mem_registered? i)).trans (List.map_id _)
  rw [h.holds.add_eq, filterMap_fates_append, List.map_append, hold, hnew]
  cases fate inputs i with
  | attached name => simp [record, registered?, @eq_comm _ name]
  | registered _ | duplicate _ _ | rootless | skipped => simp [record, registered?, warn]

theorem Records.warnings_add (h : Records dir inputs r) (hi : i.Filled) :
    (r.add i).warnings = (fates [] (inputs ++ [i])).filterMap (warningOf? dir) := by
  rw [(h.holds.add hi).2, h.warnings, warning?_eq, filterMap_fates_append]

theorem Records.add (h : Records dir inputs r) (hi : i.Filled) :
    Records dir (inputs ++ [i]) (r.add i) :=
  ⟨(h.holds.add hi).1, h.nodes_add i, h.warnings_add hi⟩

theorem Records.foldl_add (h : Records dir inputs r) (l : List Input) (hl : ∀ i ∈ l, i.Filled) :
    Records dir (inputs ++ l) (l.foldl Registry.add r) := by
  induction l generalizing r inputs with
  | nil => simpa using h
  | cons i l ih =>
    obtain ⟨hi, hl⟩ := List.forall_mem_cons.mp hl
    simpa using ih (h.add hi) hl

end Registry

end SceneDiagram.Hierarchy
