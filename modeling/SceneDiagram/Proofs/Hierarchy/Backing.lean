import SceneDiagram.Proofs.Hierarchy.Wiring

/-!
# What stands behind a node

A node is made from a scene, whose declarations come from a group that is called like
it, or from a group alone. `MadeFrom.addDeclarations`: so it stays while groups are
registered, since a node takes in declarations only while it has none.
-/

namespace SceneDiagram.Hierarchy

variable {dir : Path} {groups : List Group} {n : Node}

inductive Node.MadeFrom (dir : Path) (groups : List Group) (n : Node) : Prop
  /-- From a scene, which names the script, and from a group of its name if any. -/
  | scene (scene : Scene) (origin : n.origin = .scene scene)
      (script : n.script =
        scene.script?.map fun s => FileRef.inProject dir (FileRef.resourcePath s.path))
      (declared : n.declarations = [] ∨
        ∃ g ∈ groups, g.file.nodeName? = some n.name ∧ n.declarations = g.declarations)
  /-- From a group of its name, whose file is script and file in one. -/
  | code (g : Group) (mem : g ∈ groups) (origin : n.origin = .code)
      (named : g.file.nodeName? = some n.name) (declared : n.declarations = g.declarations)
      (file : n.file = FileRef.inProject dir g.file) (script : n.script = some n.file)

theorem Node.MadeFrom.attach (h : n.MadeFrom dir groups) (hawaits : Registry.awaitsDeclarations n)
    (hg : g ∈ groups) (hname : g.file.nodeName? = some n.name) :
    (n.attach g.declarations).MadeFrom dir groups := by
  obtain ⟨hscene, hempty⟩ := Bool.and_eq_true_iff.mp hawaits
  have hnone : n.declarations = [] := List.isEmpty_iff.mp hempty
  cases h with
  | scene scene origin script declared =>
    exact .scene scene origin script
      (.inr ⟨g, hg, hname, by rw [Node.attach, hnone, List.nil_append]⟩)
  | code _ _ origin => simp [Node.isScene, origin] at hscene

namespace Registry

variable {r : Registry} {g : Group} {gs : List Group}

def MadeFrom (groups : List Group) (r : Registry) : Prop :=
  ∀ n ∈ r.nodes, n.MadeFrom r.dir groups

theorem MadeFrom.insert (h : r.MadeFrom groups) (hn : n.MadeFrom r.dir groups) :
    (r.insert n).MadeFrom groups := by
  unfold Registry.insert
  split
  · exact h
  · intro m hm
    rcases List.mem_append.mp hm with hm | hm
    · exact h m hm
    · rw [List.mem_singleton.mp hm]
      exact hn

theorem MadeFrom.addScene (h : r.MadeFrom groups) (path : Path) (scene : Scene) :
    (r.addScene path scene).MadeFrom groups := by
  unfold Registry.addScene
  simp only
  split
  · next n hn =>
    simp only [Node.ofScene?, Option.map_eq_some_iff] at hn
    obtain ⟨root, -, rfl⟩ := hn
    exact h.insert (.scene scene rfl rfl (.inl rfl))
  · exact h

theorem MadeFrom.addGroup (h : r.MadeFrom groups) (hu : Unwired r.nodes) (hg : g ∈ groups) :
    (r.addGroup g).MadeFrom groups := by
  unfold Registry.addGroup
  split
  · exact h
  · next name hname =>
    split
    · next hawaited =>
      intro m hm
      obtain ⟨n, hn, rfl⟩ := List.mem_map.mp hm
      split
      · next heq =>
        -- Names are unique, so this is the node that was asked.
        obtain rfl : n.name = name := eq_of_beq heq
        have hfind : r.find? n.name = some n := find?_eq_some_of_nodup hu.nodup hn
        rw [hfind, Option.any_some] at hawaited
        exact (h n hn).attach hawaited hg hname
      · exact h n hn
    · exact h.insert (.code g hg rfl hname rfl rfl rfl)

theorem MadeFrom.addGroups (h : r.MadeFrom groups) (hu : Unwired r.nodes) (hgs : gs ⊆ groups) :
    (gs.foldl Registry.addGroup r).MadeFrom groups := by
  induction gs generalizing r with
  | nil => exact h
  | cons g gs ih =>
    obtain ⟨hg, hgs⟩ := List.cons_subset.mp hgs
    exact ih (h.addGroup hu hg) (unwired_addGroup hu) hgs

theorem MadeFrom.mono (h : r.MadeFrom []) : r.MadeFrom groups := by
  intro n hn
  cases h n hn with
  | scene scene origin script declared =>
    refine .scene scene origin script (declared.imp_right ?_)
    rintro ⟨g, hg, -⟩
    cases hg
  | code g mem => cases mem

theorem MadeFrom.addDeclarations (h : r.MadeFrom []) (hu : Unwired r.nodes)
    (ds : List Declaration) : (r.addDeclarations ds).MadeFrom (Group.ofDeclarations ds) :=
  h.mono.addGroups hu (List.Subset.refl _)

theorem MadeFrom.wire (h : r.MadeFrom groups) (mark : String) (analysis : AnalysisConfig)
    (hn : n ∈ ((r.graph mark).wire analysis).nodes) : n.MadeFrom r.dir groups := by
  obtain ⟨settled, hsettled, hedges⟩ := Graph.exists_of_mem_wire hn
  obtain ⟨m, hm, rfl⟩ := List.mem_map.mp hsettled
  have hname : n.name = m.name := (congrArg (·.name) hedges).symm
  have horigin : n.origin = m.origin := (congrArg (·.origin) hedges).symm
  have hfile : n.file = m.file := (congrArg (·.file) hedges).symm
  have hscript : n.script = m.script := (congrArg (·.script) hedges).symm
  have hdeclared : n.declarations = m.declarations := (congrArg (·.declarations) hedges).symm
  cases h m hm with
  | scene scene origin script declared =>
    refine .scene scene (horigin.trans origin) (hscript.trans script) ?_
    rwa [hdeclared, hname]
  | code g mem origin named declared file script =>
    exact .code g mem (horigin.trans origin) (hname ▸ named) (hdeclared.trans declared)
      (hfile.trans file) (by rw [hscript, script, hfile])

end Registry

end SceneDiagram.Hierarchy
