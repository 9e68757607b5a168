import SceneDiagram.Proofs.Basic
import SceneDiagram.Proofs.Scene.Elaboration
import SceneDiagram.Proofs.Text.PascalCase

/-!
# Named and typed nodes

`Scene.read_typed`: every node of a scene has a name. It has a type as well, unless it
takes its type from a script with neither letter nor digit in its file name: the class of
such a script is empty. Types that are written and classes of scenes are never taken
empty.
-/

namespace SceneDiagram

namespace Text

/-- The file name has neither letter nor digit in front of its first point. -/
def Nameless (path : String) : Prop :=
  ∀ c ∈ (lastPart path.toList).takeWhile (· != '.'), isAlphanumeric c = false

instance (path : String) : Decidable (Nameless path) :=
  inferInstanceAs (Decidable (∀ c ∈ (lastPart path.toList).takeWhile _, _))

theorem className_eq_empty_iff : className path = "" ↔ Nameless path := by
  rw [className, pascalCase, String.toList_ofList, String.ofList_eq_empty_iff, joinRuns_eq_nil,
    Nameless]

end Text

structure SceneNode.Typed (scripts : List (String × Script)) (n : SceneNode) : Prop where
  name : n.name ≠ ""
  scripted : ∀ script, n.script = some script →
    n.typeName = script.className ∧ ∃ id, (id, script) ∈ scripts
  plain : n.script = none → n.typeName ≠ ""

theorem SceneNode.Typed.mono {n : SceneNode} (h : n.Typed scripts) (hsub : scripts ⊆ more) :
    n.Typed more where
  name := h.name
  scripted script hscript := by
    obtain ⟨htype, id, hid⟩ := h.scripted script hscript
    exact ⟨htype, id, hsub hid⟩
  plain := h.plain

namespace Draft

variable {d : Draft} {s : Section}

theorem typeOf?_script (h : d.typeOf? s = some (some script, typeName)) :
    typeName = script.className ∧ ∃ id, (id, script) ∈ d.scripts := by
  obtain ⟨found, hfound, hscript, rfl⟩ | ⟨-, hnone, -⟩ := typeOf?_cases.mp h
  · cases hscript
    obtain ⟨id, -, hlookup⟩ := Option.bind_eq_some_iff.mp hfound
    exact ⟨rfl, id, mem_of_lookup hlookup⟩
  · cases hnone

/-- A type without a script is written or the class of a scene; neither may be empty. -/
theorem typeOf?_plain (h : d.typeOf? s = some (none, typeName)) : typeName ≠ "" := by
  obtain ⟨_, -, hscript, -⟩ | ⟨-, -, hwritten | ⟨-, _, -, -, hname⟩⟩ := typeOf?_cases.mp h
  · cases hscript
  · simpa using (Option.filter_eq_some_iff.mp hwritten).2
  · exact hname

end Draft

theorem Live.typed (l : Live) : l.node.Typed l.before.scripts where
  name := l.name_ne_empty
  scripted _ hscript := Draft.typeOf?_script (hscript ▸ l.type)
  plain hscript := Draft.typeOf?_plain (hscript ▸ l.type)

-- ---------------------------------------------------------------------------
-- Drafts
-- ---------------------------------------------------------------------------

namespace Draft

variable {d : Draft}

/-- A draft of typed nodes, and of scripts that are named after their files. -/
structure Named (d : Draft) : Prop where
  scripts : ∀ id script, (id, script) ∈ d.scripts → script.className = Text.className script.path
  root : ∀ r, d.root = some r → r.1.Typed d.scripts
  nodes : ∀ e ∈ d.nodes, e.1.Typed d.scripts

theorem named_empty : Named {} :=
  ⟨nofun, nofun, nofun⟩

theorem scripts_addResource (d : Draft) (s : Section) : (d.addResource s).scripts = d.scripts ∨
    ∃ id path, (d.addResource s).scripts = d.scripts ++ [(id, .ofPath path)] := by
  unfold addResource
  split
  · next path id _ _ _ =>
    simp only
    split
    · exact .inl rfl
    · split
      · exact .inr ⟨id, path, rfl⟩
      · exact .inl rfl
  · exact .inl rfl

theorem scripts_addNode (d : Draft) (s : Section) : (d.addNode s).scripts = d.scripts := by
  unfold addNode
  split
  · rfl
  · split
    · simp only [addRoot]
      split <;> rfl
    · simp only [addBelow]
      split <;> rfl

theorem scripts_add (d : Draft) (s : Section) : (d.add s).scripts = d.scripts ∨
    ∃ id path, (d.add s).scripts = d.scripts ++ [(id, .ofPath path)] := by
  unfold add
  split
  · exact scripts_addResource d s
  · split
    · exact .inl (scripts_addNode d s)
    · exact .inl rfl

theorem Named.add (h : d.Named) (s : Section) : (d.add s).Named := by
  have htakes := add_takes d s
  have hsub : d.scripts ⊆ (d.add s).scripts := by
    rcases scripts_add d s with hsame | ⟨id, path, hmore⟩
    · rw [hsame]
      exact List.Subset.refl _
    · rw [hmore]
      exact List.subset_append_left _ _
  have hlive (l : Live) (hl : l ∈ (d.live? s).toList) : l.node.Typed (d.add s).scripts := by
    have hbefore := (live?_source (Option.mem_toList.mp hl)).1
    exact l.typed.mono (hbefore ▸ hsub)
  refine ⟨fun id script hscript => ?_, fun r hr => ?_, fun e he => ?_⟩
  · rcases scripts_add d s with hsame | ⟨_, _, hmore⟩
    · exact h.scripts id script (hsame ▸ hscript)
    · rw [hmore] at hscript
      rcases List.mem_append.mp hscript with hscript | hscript
      · exact h.scripts id script hscript
      · cases List.mem_singleton.mp hscript
        rfl
  · rw [htakes.root, Option.orElse_eq_orElse, Option.orElse_eq_or] at hr
    rcases Option.or_eq_some_iff.mp hr with hr | ⟨-, hr⟩
    · exact (h.root r hr).mono hsub
    · obtain ⟨l, hl, rfl⟩ := Option.map_eq_some_iff.mp hr
      exact hlive l (List.mem_of_find?_eq_some hl)
  · rw [htakes.nodes] at he
    rcases List.mem_append.mp he with he | he
    · exact (h.nodes e he).mono hsub
    · obtain ⟨l, hl, he⟩ := List.mem_filterMap.mp he
      obtain ⟨anchor, -, rfl⟩ := Option.map_eq_some_iff.mp he
      exact hlive l hl

theorem Named.foldl (h : d.Named) (sections : List Section) :
    (sections.foldl Draft.add d).Named := by
  induction sections generalizing d with
  | nil => exact h
  | cons s ss ih => exact ih (h.add s)

theorem Named.typed (h : d.Named) (hsound : d.Sound) (hn : n ∈ d.scene.nodes) :
    n.Typed d.scripts := by
  have hgrown {m : SceneNode} (hm : m.Typed d.scripts) (children : List SceneNode) :
      { m with children := children }.Typed d.scripts := ⟨hm.name, hm.scripted, hm.plain⟩
  cases hroot : d.root with
  | none => simp [Scene.nodes, scene, hroot] at hn
  | some root =>
    have hbelow := hsound.perm_nodes
    simp only [Scene.nodes, scene, hroot, Option.map_some, Option.elim_some, List.drop_succ_cons,
      List.drop_zero, List.mem_cons] at hn hbelow
    rcases hn with rfl | hn
    · exact hgrown (h.root root hroot) _
    · obtain ⟨⟨e, i⟩, hmem, rfl⟩ := List.mem_map.mp (hbelow.mem_iff.mp hn)
      exact hgrown (h.nodes e (List.fst_mem_of_mem_zipIdx hmem)) _

end Draft

-- ---------------------------------------------------------------------------
-- Scenes
-- ---------------------------------------------------------------------------

theorem Scene.read_typed (h : Scene.read source = .ok (scene, warnings)) :
    ∀ n ∈ scene.nodes, n.name ≠ "" ∧
      (n.typeName = "" ↔ ∃ id script, (id, script) ∈ scene.scripts ∧ n.script = some script ∧
        Text.Nameless script.path) := by
  obtain ⟨sections, -, hmade⟩ := map_ok.mp h
  cases hmade
  have hnamed := Draft.named_empty.foldl sections
  intro n hn
  have htyped := hnamed.typed (Draft.sound_empty.foldl sections) hn
  refine ⟨htyped.name, fun hempty => ?_, fun ⟨id, script, hid, hscript, hnameless⟩ => ?_⟩
  · cases hscript : n.script with
    | none => exact absurd hempty (htyped.plain hscript)
    | some script =>
      obtain ⟨htype, id, hid⟩ := htyped.scripted script hscript
      refine ⟨id, script, hid, rfl, Text.className_eq_empty_iff.mp ?_⟩
      rw [← hnamed.scripts id script hid, ← htype, hempty]
  · rw [(htyped.scripted script hscript).1, hnamed.scripts id script hid]
    exact Text.className_eq_empty_iff.mpr hnameless

def dashScene : String :=
  "[ext_resource type=\"Script\" path=\"_.gd\" id=\"1\"][node name=\"A\" type=\"Node\"]" ++
    "[node name=\"B\" parent=\".\" script=ExtResource(\"1\")]"

theorem dashScene_types : (Scene.read dashScene).toOption.map (fun made =>
    made.1.nodes.map fun n => (n.name, n.typeName)) = some [("A", "Node"), ("B", "")] := by
  decide +kernel

theorem Scene.read_typed_dash : ∃ scene warnings, Scene.read dashScene = .ok (scene, warnings) ∧
    (scene.nodes.map fun n => (n.name, n.typeName)) = [("A", "Node"), ("B", "")] ∧
    ∀ n ∈ scene.nodes, n.name ≠ "" ∧
      (n.typeName = "" ↔ ∃ id script, (id, script) ∈ scene.scripts ∧ n.script = some script ∧
        Text.Nameless script.path) := by
  obtain ⟨⟨scene, warnings⟩, hread, htypes⟩ := toOption_map_eq_some.mp dashScene_types
  exact ⟨scene, warnings, hread, htypes, read_typed hread⟩

theorem Scene.not_read_typed : ¬ ∀ source scene warnings,
    Scene.read source = .ok (scene, warnings) →
      ∀ n ∈ scene.nodes, n.name ≠ "" ∧ n.typeName ≠ "" := by
  intro hall
  obtain ⟨⟨scene, warnings⟩, hread, htypes⟩ := toOption_map_eq_some.mp dashScene_types
  have hmem : ("B", "") ∈ scene.nodes.map fun n => (n.name, n.typeName) := by
    rw [htypes]
    decide
  obtain ⟨n, hn, hempty⟩ := List.mem_map.mp hmem
  exact (hall _ _ _ hread n hn).2 (Prod.mk.inj hempty).2

end SceneDiagram
