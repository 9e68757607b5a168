import SceneDiagram.Proofs.Basic
import SceneDiagram.Proofs.Hierarchy.Fate
import SceneDiagram.Proofs.Hierarchy.Registry

/-!
# What becomes of the inputs

`Registry.Holds.add_eq` says by the fate of an input what registering it does. So
(`Registry.Holds.add`) the registry holds each name once, in the order in which the names
were asked for, with the file of the input that has it, and warns of an input exactly if
neither a node nor a scene takes it in.
-/

namespace SceneDiagram.Hierarchy

def Registry.add (r : Registry) : Input → Registry
  | .scene path scene => r.addScene path scene
  | .group g => r.addGroup g

/-- What a registry holds once these inputs have been registered. -/
structure Registry.Holds (dir : Path) (inputs : List Input) (r : Registry) : Prop where
  names : r.nodes.map (·.name) = (inputs.filterMap (·.name?)).eraseDups
  files : ∀ n ∈ r.nodes,
    (holder? inputs n.name).map (FileRef.relativeTo dir ·.file) = some n.file.relative
  awaits : ∀ n ∈ r.nodes, awaitsDeclarations n = awaited inputs n.name
  dir : r.dir = dir

def Registry.record (dir : Path) (r : Registry) (i : Input) : Fate → Registry
  | .registered name => { r with nodes := r.nodes ++ [i.node dir name] }
  | .attached name =>
    { r with nodes := r.nodes.map fun n =>
        if n.name == name then n.attach i.declarations else n }
  | .duplicate name kept =>
    r.warn (.duplicateName name (FileRef.relativeTo dir kept) (FileRef.relativeTo dir i.file))
  | .rootless => r.warn (.missingRoot i.file)
  | .skipped => r

variable {inputs : List Input} {i : Input} {name : String}

namespace Registry

variable {dir : Path} {r : Registry} {n : Node}

theorem Holds.empty (dir : Path) : Holds dir [] { dir := dir } :=
  ⟨rfl, nofun, nofun, rfl⟩

theorem Holds.warn (h : Holds dir inputs r) (w : Warning) : Holds dir inputs (r.warn w) :=
  ⟨h.names, h.files, h.awaits, h.dir⟩

theorem Holds.isSome_holder? (h : Holds dir inputs r) :
    (holder? inputs name).isSome ↔ name ∈ r.nodes.map (·.name) := by
  rw [holder?_isSome, h.names, List.mem_eraseDups]

theorem Holds.exists_holder? (h : Holds dir inputs r) (hn : n ∈ r.nodes) :
    ∃ kept, holder? inputs n.name = some kept ∧
      FileRef.relativeTo dir kept.file = n.file.relative :=
  Option.map_eq_some_iff.mp (h.files n hn)

theorem Holds.find?_some (h : Holds dir inputs r) (hkept : holder? inputs name = some kept) :
    ∃ n, r.find? name = some n ∧ n ∈ r.nodes ∧ n.name = name := by
  have hmem := h.isSome_holder?.mp (Option.isSome_of_eq_some hkept)
  obtain ⟨n, hn⟩ := Option.ne_none_iff_exists'.mp fun hnone => find?_eq_none.mp hnone hmem
  exact ⟨n, hn, List.mem_of_find?_eq_some hn, eq_of_beq (List.find?_some hn :)⟩

theorem Holds.find?_none (h : Holds dir inputs r) (hfree : holder? inputs name = none) :
    r.find? name = none := by
  rw [find?_eq_none, ← h.isSome_holder?, hfree]
  exact Bool.false_ne_true

theorem Holds.insert_taken (h : Holds dir inputs r) (hkept : holder? inputs n.name = some kept) :
    r.insert n = r.warn (.duplicateName n.name (FileRef.relativeTo dir kept.file)
      n.file.relative) := by
  obtain ⟨m, hfind, hm, hname⟩ := h.find?_some hkept
  have hfile := h.files m hm
  rw [hname, hkept, Option.map_some, Option.some.injEq] at hfile
  rw [Registry.insert, hfind, hfile]

theorem Holds.insert_free (h : Holds dir inputs r) (hfree : holder? inputs n.name = none) :
    r.insert n = { r with nodes := r.nodes ++ [n] } := by
  rw [Registry.insert, h.find?_none hfree]

theorem Holds.nameless (h : Holds dir inputs r) (hi : i.name? = none) :
    Holds dir (inputs ++ [i]) r where
  names := by
    rw [h.names, List.filterMap_append]
    simp [hi]
  files n hn := by
    obtain ⟨kept, hkept, hfile⟩ := h.exists_holder? hn
    rw [holder?_append_of_some hkept, Option.map_some, hfile]
  awaits n hn := by
    obtain ⟨kept, hkept, -⟩ := h.exists_holder? hn
    simp [awaited_append hkept, h.awaits n hn, Input.asks, hi]
  dir := h.dir

theorem Holds.lost (h : Holds dir inputs r) (hi : i.name? = some name)
    (hkept : holder? inputs name = some kept) (hwaits : awaited inputs name → i.isScene) :
    Holds dir (inputs ++ [i]) r where
  names := by
    have hmem := holder?_isSome.mp (Option.isSome_of_eq_some hkept)
    rw [h.names, List.filterMap_append]
    simp [hi, eraseDups_append_singleton, hmem]
  files n hn := by
    obtain ⟨kept, hkept, hfile⟩ := h.exists_holder? hn
    rw [holder?_append_of_some hkept, Option.map_some, hfile]
  awaits n hn := by
    obtain ⟨kept, hkept, -⟩ := h.exists_holder? hn
    rw [awaited_append hkept, h.awaits n hn]
    by_cases hn : name = n.name
    · subst hn
      cases hw : awaited inputs n.name <;> simp_all
    · simp [Input.asks, hi, hn]
  dir := h.dir

theorem Holds.fresh (h : Holds dir inputs r) (hi : i.name? = some n.name)
    (hfree : holder? inputs n.name = none)
    (hfile : n.file.relative = FileRef.relativeTo dir i.file)
    (hawaits : awaitsDeclarations n = i.isScene) :
    Holds dir (inputs ++ [i]) { r with nodes := r.nodes ++ [n] } where
  names := by
    have hnone : n.name ∉ inputs.filterMap (·.name?) := by
      rw [← holder?_isSome, hfree]
      exact Bool.false_ne_true
    rw [List.map_append, h.names, List.filterMap_append]
    simp [hi, eraseDups_append_singleton, hnone]
  files m hm := by
    rcases List.mem_append.mp hm with hm | hm
    · obtain ⟨kept, hkept, hrelative⟩ := h.exists_holder? hm
      rw [holder?_append_of_some hkept, Option.map_some, hrelative]
    · rw [List.mem_singleton.mp hm, holder?_append_of_none hfree hi, Option.map_some, hfile]
  awaits m hm := by
    rcases List.mem_append.mp hm with hm | hm
    · obtain ⟨kept, hkept, -⟩ := h.exists_holder? hm
      have hother : i.asks m.name = false := by
        rw [← Bool.not_eq_true, Input.asks_iff, hi, Option.some.injEq]
        intro heq
        rw [← heq, hfree] at hkept
        cases hkept
      rw [awaited_append hkept, hother, h.awaits m hm, Bool.false_and, Bool.not_false,
        Bool.and_true]
    · rw [List.mem_singleton.mp hm, hawaits, awaited_append_of_none hfree hi]
  dir := h.dir

theorem Holds.attached {g : Group} (h : Holds dir inputs r) (hname : g.file.nodeName? = some name)
    (hfilled : g.declarations ≠ []) (hawaited : awaited inputs name) :
    Holds dir (inputs ++ [.group g])
      { r with nodes := r.nodes.map fun n =>
          if n.name == name then n.attach g.declarations else n } := by
  obtain ⟨hscene, -⟩ := Bool.and_eq_true_iff.mp hawaited
  obtain ⟨kept, hkept, -⟩ := (Option.any_eq_true _ _).mp hscene
  have hmem : name ∈ inputs.filterMap (·.name?) :=
    holder?_isSome.mp (Option.isSome_of_eq_some hkept)
  refine ⟨?_, fun m hm => ?_, fun m hm => ?_, h.dir⟩
  · have hi : Input.name? (.group g) = some name := hname
    have hsame : (·.name) ∘
        (fun n : Node => if n.name == name then n.attach g.declarations else n) = (·.name) := by
      funext n
      rw [Function.comp_apply]
      split <;> rfl
    rw [List.map_map, hsame, h.names, List.filterMap_append]
    simp [hi, eraseDups_append_singleton, hmem]
  · obtain ⟨n, hn, rfl⟩ := List.mem_map.mp hm
    obtain ⟨holder, hholder, hrelative⟩ := h.exists_holder? hn
    have hsome := congrArg (Option.map (FileRef.relativeTo dir ·.file))
      (holder?_append_of_some (i := .group g) hholder)
    rw [Option.map_some, hrelative] at hsome
    split <;> exact hsome
  · obtain ⟨n, hn, rfl⟩ := List.mem_map.mp hm
    obtain ⟨holder, hholder, -⟩ := h.exists_holder? hn
    split
    · next heq =>
      have hasks : Input.asks n.name (.group g) := by
        rw [Input.asks_iff, eq_of_beq heq]
        exact hname
      change awaitsDeclarations (n.attach g.declarations) = awaited _ n.name
      rw [awaited_append hholder, hasks]
      simp [awaitsDeclarations, Node.attach, hfilled, Input.isScene]
    · next hne =>
      have hother : Input.asks n.name (.group g) = false := by
        rw [← Bool.not_eq_true, Input.asks_iff]
        intro hi
        exact hne (beq_iff_eq.mpr (Option.some.inj (hi.symm.trans hname)))
      rw [awaited_append hholder, hother, h.awaits n hn, Bool.false_and, Bool.not_false,
        Bool.and_true]

theorem Holds.find?_any_awaits (h : Holds dir inputs r) (name : String) :
    (r.find? name).any awaitsDeclarations = awaited inputs name := by
  cases hkept : holder? inputs name with
  | some kept =>
    obtain ⟨n, hfind, hn, rfl⟩ := h.find?_some hkept
    rw [hfind, Option.any_some, h.awaits n hn]
  | none =>
    rw [h.find?_none hkept, Option.any_none, awaited, hkept, Option.any_none, Bool.false_and]

-- ---------------------------------------------------------------------------
-- One input more
-- ---------------------------------------------------------------------------

theorem Holds.addScene_eq (h : Holds dir inputs r) (path : Path) (scene : Scene) :
    r.addScene path scene =
      r.record dir (.scene path scene) (fate inputs (.scene path scene)) := by
  have hname : Input.name? (.scene path scene) = scene.root.map (·.name) := rfl
  obtain rfl := h.dir
  unfold Registry.addScene
  simp only [Node.ofScene?]
  cases hroot : scene.root with
  | none =>
    rw [hroot] at hname
    rw [fate_of_nameless hname]
    rfl
  | some root =>
    rw [hroot] at hname
    simp only [Option.map_some]
    cases hkept : holder? inputs root.name with
    | some kept =>
      rw [h.insert_taken (n := { name := root.name, .. }) hkept, fate_of_taken hname hkept]
      rfl
    | none =>
      rw [h.insert_free (n := { name := root.name, .. }) hkept, fate_of_free hname hkept]
      rfl

theorem Holds.addGroup_eq (h : Holds dir inputs r) (g : Group) :
    r.addGroup g = r.record dir (.group g) (fate inputs (.group g)) := by
  have hi : Input.name? (.group g) = g.file.nodeName? := rfl
  obtain rfl := h.dir
  unfold Registry.addGroup
  cases hname : g.file.nodeName? with
  | none =>
    rw [hname] at hi
    rw [fate_of_nameless hi]
    rfl
  | some name =>
    rw [hname] at hi
    simp only [h.find?_any_awaits]
    cases hawaited : awaited inputs name with
    | true =>
      rw [if_pos rfl, fate_group_eq_attached.mpr ⟨hi, hawaited⟩]
      rfl
    | false =>
      rw [if_neg Bool.false_ne_true]
      cases hkept : holder? inputs name with
      | some kept =>
        rw [h.insert_taken (n := .ofDeclarations name _ _) hkept, fate_of_taken hi hkept,
          hawaited]
        rfl
      | none =>
        rw [h.insert_free (n := .ofDeclarations name _ _) hkept, fate_of_free hi hkept]
        rfl

/-- The fate of an input says all that registering it does. -/
theorem Holds.add_eq (h : Holds dir inputs r) (i : Input) :
    r.add i = r.record dir i (fate inputs i) := by
  cases i with
  | scene path scene => exact h.addScene_eq path scene
  | group g => exact h.addGroup_eq g

theorem awaitsDeclarations_node : awaitsDeclarations (i.node dir name) = i.isScene := by
  cases i <;> rfl

theorem Holds.record (h : Holds dir inputs r) (hfilled : i.Filled) :
    Holds dir (inputs ++ [i]) (r.record dir i (fate inputs i)) := by
  cases hf : fate inputs i with
  | registered name =>
    obtain ⟨hname, hfree⟩ := fate_eq_iff.mp hf
    exact h.fresh (n := i.node dir name) (by rwa [Input.name_node])
      (by rwa [Input.name_node]) (by rw [Input.file_node]; rfl) awaitsDeclarations_node
  | attached name =>
    obtain ⟨hname, hgroup, hawaited⟩ := fate_eq_iff.mp hf
    cases i with
    | scene path scene => exact absurd rfl hgroup
    | group g => exact h.attached hname hfilled hawaited
  | duplicate name file =>
    obtain ⟨hname, hlost, kept, hkept, rfl⟩ := fate_eq_iff.mp hf
    refine (h.lost hname hkept fun hawaited => ?_).warn _
    exact Decidable.byContradiction fun hgroup => hlost ⟨hgroup, hawaited⟩
  | rootless => exact (h.nameless (fate_eq_iff.mp hf).1).warn _
  | skipped => exact h.nameless (fate_eq_iff.mp hf).1

theorem warnings_record (dir : Path) (r : Registry) (i : Input) (f : Fate) :
    (r.record dir i f).warnings = r.warnings ++ (warningOf? dir (i, f)).toList := by
  cases f <;> simp [record, warningOf?, warn]

theorem Holds.add (h : Holds dir inputs r) (hfilled : i.Filled) :
    Holds dir (inputs ++ [i]) (r.add i) ∧
      (r.add i).warnings = r.warnings ++ (warning? dir inputs i).toList := by
  rw [h.add_eq, warning?_eq]
  exact ⟨h.record hfilled, warnings_record dir r i _⟩

end Registry

end SceneDiagram.Hierarchy
