import Mathlib.Data.List.Find
import SceneDiagram.Proofs.Scene.Elaboration
import SceneDiagram.Proofs.Text.Split

/-!
# Full names

The parent of a node is looked up among the full names of the nodes before it; a path
in a tree is followed name by name. As long as no name holds a slash, both find the
same node: the first with the path as its full name (`Sound.select?_eq`).
-/

namespace SceneDiagram

inductive SceneNode.Way (top : SceneNode) : List String → SceneNode → Prop
  | here : Way top [] top
  | down : Way top names m → n ∈ m.children → Way top (names ++ [n.name]) n

theorem SceneNode.fullName_ne_empty {n : SceneNode} (h : n.name ≠ "") : n.fullName ≠ "" := by
  unfold fullName
  split
  · exact h
  · exact h
  · exact h
  · simp [h]

namespace Draft

variable {d : Draft} {nodes : List (SceneNode × Anchor)} {e e' : SceneNode × Anchor}

-- ---------------------------------------------------------------------------
-- Entries
-- ---------------------------------------------------------------------------

theorem mem_trees : n ∈ trees nodes ↔ ∃ i e, nodes[i]? = some e ∧ grown nodes (e, i) = n := by
  constructor
  · intro hn
    obtain ⟨⟨e, i⟩, hmem, rfl⟩ := List.mem_map.mp hn
    exact ⟨i, e, List.mk_mem_zipIdx_iff_getElem?.mp hmem, rfl⟩
  · rintro ⟨i, e, he, rfl⟩
    exact List.mem_map_of_mem (List.mk_mem_zipIdx_iff_getElem?.mpr he)

theorem Earlier.mem_subtrees (h : Earlier nodes) : n ∈ subtrees 0 nodes a ↔
    ∃ i e, nodes[i]? = some e ∧ e.2 = a ∧ grown nodes (e, i) = n := by
  rw [h.subtrees_eq]
  constructor
  · intro hn
    obtain ⟨⟨e, i⟩, hmem, rfl⟩ := List.mem_map.mp hn
    obtain ⟨hmem, ha⟩ := List.mem_filter.mp hmem
    exact ⟨i, e, List.mk_mem_zipIdx_iff_getElem?.mp hmem, by simpa using ha, rfl⟩
  · rintro ⟨i, e, he, ha, rfl⟩
    exact List.mem_map_of_mem
      (List.mem_filter.mpr ⟨List.mk_mem_zipIdx_iff_getElem?.mpr he, by simpa using ha⟩)

def position? (nodes : List (SceneNode × Anchor)) (path : String) : Option Nat :=
  nodes.findIdx? (·.1.fullName == path)

theorem fullName_of_position? (h : position? nodes path = some j) (he : nodes[j]? = some e) :
    e.1.fullName = path := by
  obtain ⟨hlt, hpath, -⟩ := List.findIdx?_eq_some_iff_getElem.mp h
  rw [List.getElem?_eq_getElem hlt] at he
  cases he
  exact beq_iff_eq.mp hpath

theorem position?_inj (h : position? nodes path = some j) (h' : position? nodes other = some j) :
    path = other := by
  obtain ⟨hlt, -⟩ := List.findIdx?_eq_some_iff_getElem.mp h
  have he := List.getElem?_eq_getElem hlt
  rw [← fullName_of_position? h he, fullName_of_position? h' he]

/-- A node hangs on the root under its name, or on the first node of its parent path. -/
theorem Sound.fullName (h : d.Sound) (he : e ∈ d.nodes) :
    e.2 = .root ∧ e.1.fullName = e.1.name ∨
      ∃ path j, position? d.nodes path = some j ∧ e.2 = .placed j ∧
        e.1.fullName = path ++ "/" ++ e.1.name := by
  obtain ⟨i, hi, hget⟩ := List.mem_iff_getElem.mp he
  have hhangs := h.hung i e (by rw [List.getElem?_eq_getElem hi, hget])
  obtain ⟨path, hpath, ⟨rfl, hroot⟩ | ⟨hdot, j, hj, hplaced⟩⟩ := hhangs.anchor
  · exact .inl ⟨hroot, by simp [SceneNode.fullName, hpath]⟩
  · have hposition : position? d.nodes path = some j := by
      rw [position?, ← List.take_append_drop i d.nodes, List.findIdx?_append, hj]
      rfl
    obtain ⟨hlt, hfull, -⟩ := List.findIdx?_eq_some_iff_getElem.mp hposition
    have hempty : path ≠ "" := by
      have hname := (h.hung j _ (List.getElem?_eq_getElem hlt)).name
      rw [← beq_iff_eq.mp hfull]
      exact SceneNode.fullName_ne_empty hname
    exact .inr ⟨path, j, hposition, hplaced, by simp [SceneNode.fullName, hpath]⟩

def SlashFree (nodes : List (SceneNode × Anchor)) : Prop := ∀ e ∈ nodes, '/' ∉ e.1.name.toList

/-- A full name in two parts: of the first node with the one, and of the node below it. -/
theorem Sound.fullName_eq_iff (h : d.Sound) (hfree : SlashFree d.nodes) (he : e ∈ d.nodes)
    (hx : '/' ∉ x.toList) : e.1.fullName = path ++ "/" ++ x ↔
      ∃ j, position? d.nodes path = some j ∧ e.2 = .placed j ∧ e.1.name = x := by
  rcases h.fullName he with ⟨hroot, hname⟩ | ⟨own, k, hk, hplaced, hname⟩
  · have hslash : '/' ∈ (path ++ "/" ++ x).toList := by simp
    rw [hroot, hname]
    constructor
    · intro heq
      exact absurd hslash (heq ▸ hfree e he)
    · rintro ⟨j, -, hno, -⟩
      cases hno
  · rw [hplaced, hname]
    constructor
    · intro heq
      obtain ⟨rfl, hx⟩ := Text.parts_inj (hfree e he) hx heq
      exact ⟨k, hk, rfl, hx⟩
    · rintro ⟨j, hj, hjk, rfl⟩
      cases hjk
      rw [position?_inj hk hj]

theorem Sound.root_iff (h : d.Sound) (he : e ∈ d.nodes) (hx : '/' ∉ x.toList) :
    e.2 = .root ∧ e.1.name = x ↔ e.1.fullName = x := by
  rcases h.fullName he with ⟨hroot, hname⟩ | ⟨own, k, hk, hplaced, hname⟩
  · simp [hroot, hname]
  · rw [hplaced, hname]
    constructor
    · rintro ⟨hno, -⟩
      cases hno
    · rintro rfl
      simp at hx

-- ---------------------------------------------------------------------------
-- Paths
-- ---------------------------------------------------------------------------

def named? (nodes : List (SceneNode × Anchor)) (path : String) : Option SceneNode :=
  (trees nodes).find? (·.fullName == path)

theorem named?_eq_none_iff : named? nodes path = none ↔ position? nodes path = none := by
  rw [named?, position?, List.find?_eq_none, List.findIdx?_eq_none_iff]
  constructor
  · intro h e he
    obtain ⟨i, hi, rfl⟩ := List.mem_iff_getElem.mp he
    simpa using h _ (mem_trees.mpr ⟨i, _, List.getElem?_eq_getElem hi, rfl⟩)
  · intro h n hn
    obtain ⟨i, e, he, rfl⟩ := mem_trees.mp hn
    simpa using h e (List.mem_of_getElem? he)

theorem named?_of_position? (h : position? nodes path = some j) :
    ∃ e, named? nodes path = some (grown nodes (e, j)) := by
  obtain ⟨hlt, hpath, hbefore⟩ := List.findIdx?_eq_some_iff_getElem.mp h
  refine ⟨nodes[j], List.find?_eq_some_iff_getElem.mpr ⟨hpath, j, by simpa [trees] using hlt,
    by simp [trees], fun i hi => ?_⟩⟩
  simpa [trees] using hbefore i hi

theorem Earlier.find?_subtrees (h : Earlier nodes)
    (hiff : ∀ e ∈ nodes, e.2 = a ∧ e.1.name = x ↔ e.1.fullName = path) :
    (subtrees 0 nodes a).find? (·.name == x) = named? nodes path := by
  rw [h.subtrees_eq, named?, trees, List.find?_map, List.find?_map, List.find?_filter]
  refine congrArg _ (List.find?_congr fun y hy => ?_)
  rw [Bool.eq_iff_iff]
  simpa using hiff y.1 (List.mem_of_getElem? (List.mem_zipIdx_iff_getElem?.mp hy))

theorem Sound.named?_bind_child? (h : d.Sound) (hfree : SlashFree d.nodes) (hx : '/' ∉ x.toList)
    (path : String) :
    (named? d.nodes path).bind (·.child? x) = named? d.nodes (path ++ "/" ++ x) := by
  cases hposition : position? d.nodes path with
  | none =>
    -- What no node has as its full name, no node has as its parent path.
    rw [named?_eq_none_iff.mpr hposition, Option.bind_none, eq_comm, named?_eq_none_iff,
      position?, List.findIdx?_eq_none_iff]
    intro e he
    rw [beq_eq_false_iff_ne]
    intro heq
    obtain ⟨j, hj, -⟩ := (h.fullName_eq_iff hfree he hx).mp heq
    rw [hposition] at hj
    cases hj
  | some j =>
    obtain ⟨e, hfirst⟩ := named?_of_position? hposition
    rw [hfirst]
    refine h.earlier.find?_subtrees fun e he => ?_
    rw [h.fullName_eq_iff hfree he hx, hposition]
    simp

theorem Sound.named?_bind_descend? (h : d.Sound) (hfree : SlashFree d.nodes)
    (hnames : ∀ x ∈ names, '/' ∉ x.toList) (path : String) :
    (named? d.nodes path).bind (·.descend? names) =
      named? d.nodes (Text.join "/" (path :: names)) := by
  induction names generalizing path with
  | nil => cases hfirst : named? d.nodes path <;> simp [SceneNode.descend?, Text.join, hfirst]
  | cons x names ih =>
    obtain ⟨hx, hnames⟩ := List.forall_mem_cons.mp hnames
    calc (named? d.nodes path).bind (·.descend? (x :: names))
      _ = ((named? d.nodes path).bind (·.child? x)).bind (·.descend? names) :=
        (Option.bind_assoc ..).symm
      _ = named? d.nodes (Text.join "/" ((path ++ "/" ++ x) :: names)) := by
        rw [h.named?_bind_child? hfree hx, ih hnames]
      _ = named? d.nodes (Text.join "/" (path :: x :: names)) := by
        rw [Text.join_joined_cons]

/-- Following a path in the tree finds what looking up the full name finds. -/
theorem Sound.select?_eq (h : d.Sound) (hfree : SlashFree d.nodes) (path : String) :
    d.scene.root.bind (·.select? path) = named? d.nodes path := by
  have hempty : named? d.nodes "" = none := by
    rw [named?_eq_none_iff, position?, List.findIdx?_eq_none_iff]
    intro e he
    obtain ⟨i, hi⟩ := List.mem_iff_getElem?.mp he
    simpa using SceneNode.fullName_ne_empty (h.hung i e hi).name
  cases hroot : d.root with
  | none => simp [scene, hroot, h.rooted hroot, named?, trees]
  | some root =>
    rw [scene, hroot, Option.map_some, Option.bind_some, SceneNode.select?]
    split
    · next hpath => rw [hpath, hempty]
    · have hfree' : ∀ x ∈ Text.split '/' path, '/' ∉ x.toList := fun x => Text.not_mem_of_mem_split
      have hjoin := Text.join_split '/' path
      cases hsplit : Text.split '/' path with
      | nil => exact absurd hsplit (Text.split_ne_nil '/' path)
      | cons x names =>
        rw [hsplit] at hfree' hjoin
        obtain ⟨hx, hnames⟩ := List.forall_mem_cons.mp hfree'
        rw [SceneNode.descend?, SceneNode.child?,
          h.earlier.find?_subtrees fun e he => h.root_iff he hx,
          h.named?_bind_descend? hfree hnames]
        exact congrArg _ hjoin

-- ---------------------------------------------------------------------------
-- Ways down
-- ---------------------------------------------------------------------------

variable {root m n : SceneNode} {names : List String}

theorem children_root (h : d.scene.root = some root) :
    root.children = subtrees 0 d.nodes .root := by
  obtain ⟨first, -, rfl⟩ := Option.map_eq_some_iff.mp h
  rfl

/-- A way ends at its top, or at the node with the joined names as its full name. -/
theorem Sound.end_of_way (h : d.Sound) (hroot : d.scene.root = some root)
    (hway : root.Way names m) : names = [] ∧ m = root ∨
      names ≠ [] ∧ m ∈ trees d.nodes ∧ m.fullName = Text.join "/" names := by
  induction hway with
  | here => exact .inl ⟨rfl, rfl⟩
  | down hway hn ih =>
    refine .inr ⟨by simp, ?_⟩
    rcases ih with ⟨rfl, rfl⟩ | ⟨hne, hm, hfull⟩
    · rw [children_root hroot] at hn
      obtain ⟨i, e, he, ha, rfl⟩ := h.earlier.mem_subtrees.mp hn
      refine ⟨mem_trees.mpr ⟨i, e, he, rfl⟩, ?_⟩
      rcases h.fullName (List.mem_of_getElem? he) with ⟨-, hname⟩ | ⟨own, k, -, hplaced, -⟩
      · simpa [Text.join] using hname
      · rw [ha] at hplaced
        cases hplaced
    · obtain ⟨j, above, habove, rfl⟩ := mem_trees.mp hm
      obtain ⟨i, e, he, ha, rfl⟩ := h.earlier.mem_subtrees.mp hn
      refine ⟨mem_trees.mpr ⟨i, e, he, rfl⟩, ?_⟩
      rcases h.fullName (List.mem_of_getElem? he) with ⟨hno, -⟩ | ⟨own, k, hk, hplaced, hname⟩
      · rw [ha] at hno
        cases hno
      · rw [ha] at hplaced
        cases hplaced
        rw [Text.join_concat hne, ← hfull, fullName_grown, fullName_grown, name_grown, hname,
          fullName_of_position? hk habove]

theorem Sound.exists_way (h : d.Sound) (hroot : d.scene.root = some root)
    (he : d.nodes[i]? = some e) :
    ∃ names m, root.Way names m ∧ grown d.nodes (e, i) ∈ m.children := by
  induction i using Nat.strongRecOn generalizing e with
  | ind i ih =>
    rcases h.fullName (List.mem_of_getElem? he) with ⟨ha, -⟩ | ⟨own, k, hk, hplaced, -⟩
    · refine ⟨[], root, .here, ?_⟩
      rw [children_root hroot]
      exact h.earlier.mem_subtrees.mpr ⟨i, e, he, ha, rfl⟩
    · have hlt : k < i := h.earlier i k e.1 (by rw [he, ← hplaced])
      obtain ⟨hk, -⟩ := List.findIdx?_eq_some_iff_getElem.mp hk
      obtain ⟨names, m, hway, habove⟩ := ih k hlt (List.getElem?_eq_getElem hk)
      exact ⟨_, _, .down hway habove,
        h.earlier.mem_subtrees.mpr ⟨i, e, he, hplaced, rfl⟩⟩

/-- Nodes with one full name are siblings with one name. -/
theorem Sound.siblings (h : d.Sound) (hfree : SlashFree d.nodes) (he : e ∈ d.nodes)
    (he' : e' ∈ d.nodes) (heq : e'.1.fullName = e.1.fullName) :
    e'.2 = e.2 ∧ e'.1.name = e.1.name := by
  rcases h.fullName he with ⟨ha, hname⟩ | ⟨own, k, hk, hplaced, hname⟩
  · rw [ha]
    exact (h.root_iff he' (hfree e he)).mpr (heq.trans hname)
  · obtain ⟨j, hj, hplaced', hsame⟩ :=
      (h.fullName_eq_iff hfree he' (hfree e he)).mp (heq.trans hname)
    rw [hk] at hj
    cases hj
    exact ⟨hplaced'.trans hplaced.symm, hsame⟩

theorem Sound.named?_child (h : d.Sound) (hfree : SlashFree d.nodes)
    (hn : n ∈ subtrees 0 d.nodes a) (hnodup : ((subtrees 0 d.nodes a).map (·.name)).Nodup) :
    named? d.nodes n.fullName = some n := by
  obtain ⟨i, e, he, ha, rfl⟩ := h.earlier.mem_subtrees.mp hn
  rw [named?]
  cases hfirst : (trees d.nodes).find? (·.fullName == (grown d.nodes (e, i)).fullName) with
  | none =>
    have hmem := mem_trees.mpr ⟨i, e, he, rfl⟩
    exact absurd (beq_self_eq_true _) (List.find?_eq_none.mp hfirst _ hmem)
  | some first =>
    have hsame := List.find?_some hfirst
    rw [beq_iff_eq] at hsame
    obtain ⟨i', e', he', rfl⟩ := mem_trees.mp (List.mem_of_find?_eq_some hfirst)
    obtain ⟨ha', hname⟩ :=
      h.siblings hfree (List.mem_of_getElem? he) (List.mem_of_getElem? he') hsame
    have hfirst' := h.earlier.mem_subtrees.mpr ⟨i', e', he', ha'.trans ha, rfl⟩
    exact congrArg some (List.inj_on_of_nodup_map hnodup hfirst' hn hname)

-- ---------------------------------------------------------------------------
-- Warnings
-- ---------------------------------------------------------------------------

theorem warnings_prefix_addResource (d : Draft) (s : Section) :
    d.warnings <+: (d.addResource s).warnings := by
  unfold addResource
  split
  · split
    · exact List.prefix_append ..
    · split <;> exact List.prefix_rfl
  · exact List.prefix_rfl

theorem warnings_prefix_addNode (d : Draft) (s : Section) :
    d.warnings <+: (d.addNode s).warnings := by
  unfold addNode
  split
  · exact List.prefix_rfl
  · split
    · unfold addRoot
      split
      · exact List.prefix_rfl
      · exact List.prefix_append ..
    · unfold addBelow
      simp only
      split
      · exact List.prefix_rfl
      · exact List.prefix_append ..

theorem warnings_prefix_add (d : Draft) (s : Section) : d.warnings <+: (d.add s).warnings := by
  unfold add
  split
  · exact warnings_prefix_addResource d s
  · split
    · exact warnings_prefix_addNode d s
    · exact List.prefix_rfl

theorem warnings_prefix_foldl (d : Draft) (sections : List Section) :
    d.warnings <+: (sections.foldl add d).warnings := by
  induction sections generalizing d with
  | nil => exact List.prefix_rfl
  | cons s ss ih => exact (warnings_prefix_add d s).trans (ih (d.add s))

theorem warned_iff {l : Live} (hlive : d.live? s = some l) (hpath : s.parentPath? = some path) :
    (∃ w, w.code = some .parentNotFound ∧ (d.add s).warnings = d.warnings ++ [w]) ↔
      d.anchor? path = none := by
  obtain ⟨parent, hparent, rfl⟩ := Option.map_eq_some_iff.mp hpath
  have hs : s.tag.value = "node" := (live?_source hlive).2 ▸ l.tag
  rw [add, hs, if_neg (by decide), if_pos rfl, addNode_eq d hs, hlive]
  simp only [hparent, addBelow]
  cases hanchor : d.anchor? (parent.value.quotedText?.getD "") with
  | none => simp [warn]
  | some anchor => simp

end Draft

/-- What paths lead to in a scene, where the nodes below the root stand in an order. -/
structure Scene.Addressed (scene : Scene) (order : List SceneNode) : Prop where
  reached : ∀ root ∈ scene.root, ∀ n ∈ root.descendants,
    ∃ names m, root.Way names m ∧ n ∈ m.children
  joined : ∀ root ∈ scene.root, ∀ names m n, root.Way names m → n ∈ m.children →
    n.fullName = Text.join "/" (names ++ [n.name])
  /-- A path leads to the first node with that full name. -/
  first : ∀ root ∈ scene.root, ∀ path, root.select? path = order.find? (·.fullName == path)
  own : ∀ root ∈ scene.root, ∀ names m n, root.Way names m → n ∈ m.children →
    (m.children.map (·.name)).Nodup → root.select? n.fullName = some n

/-- A live section below a path is told that its parent is missing exactly if the path leads
nowhere in the tree of the sections before. -/
def Section.ToldMissing (before : List Section) (s : Section) : Prop :=
  ∀ l path, (before.foldl Draft.add {}).live? s = some l → s.parentPath? = some path →
    path ≠ "." →
      ((∃ w, w.code = some .parentNotFound ∧
          (Scene.ofSections (before ++ [s])).2 = (Scene.ofSections before).2 ++ [w]) ↔
        (Scene.ofSections before).1.root.bind (·.select? path) = none)

theorem Draft.Sound.addressed {d : Draft} (h : d.Sound) (hfree : SlashFree d.nodes) :
    d.scene.Addressed (trees d.nodes) := by
  have hfirst (root) (hroot : root ∈ d.scene.root) (path) :
      root.select? path = named? d.nodes path := by
    rw [← h.select?_eq hfree, Option.mem_def.mp hroot, Option.bind_some]
  refine ⟨fun root hroot n hn => ?_, fun root hroot names m n hway hn => ?_, hfirst,
    fun root hroot names m n hway hn hnodup => ?_⟩
  · have hmem : n ∈ trees d.nodes := by
      rw [SceneNode.descendants_eq, children_root hroot] at hn
      exact h.earlier.perm_trees.mem_iff.mp hn
    obtain ⟨i, e, he, rfl⟩ := mem_trees.mp hmem
    exact h.exists_way hroot he
  · rcases h.end_of_way hroot (.down hway hn) with ⟨hno, -⟩ | ⟨-, -, hfull⟩
    · simp at hno
    · exact hfull
  · rw [hfirst root hroot]
    rcases h.end_of_way hroot hway with ⟨-, rfl⟩ | ⟨-, hm, -⟩
    · rw [children_root hroot] at hn hnodup
      exact h.named?_child hfree hn hnodup
    · obtain ⟨j, above, -, rfl⟩ := mem_trees.mp hm
      exact h.named?_child hfree hn hnodup

theorem Draft.Sound.anchor?_eq_none_iff {d : Draft} (h : d.Sound) (hfree : SlashFree d.nodes)
    (hpath : path ≠ ".") :
    d.anchor? path = none ↔ d.scene.root.bind (·.select? path) = none := by
  rw [h.select?_eq hfree, named?_eq_none_iff, anchor?, if_neg hpath, Option.map_eq_none_iff]
  rfl

/-- In a scene without slashes in its names the lookup of a parent and the search for a path
are the same. -/
theorem Scene.read_addressed (hread : Scene.read source = .ok (scene, warnings))
    (hslash : ∀ n ∈ scene.nodes.drop 1, '/' ∉ n.name.toList) :
    ∃ sections order, Section.readAll source = .ok sections ∧
      InFileOrder (Draft.lives {} sections) scene order ∧ scene.Addressed order ∧
      ∀ before s after, sections = before ++ s :: after →
        s.ToldMissing before ∧ (ofSections (before ++ [s])).2 <+: warnings := by
  cases hall : Section.readAll source with
  | error _ => rw [Scene.read, hall] at hread; cases hread
  | ok sections =>
    rw [Scene.read, hall] at hread
    cases hread
    have hsound := Draft.sound_empty.foldl sections
    have horder := hsound.inFileOrder (Draft.foldl_add_takes {} sections)
    have hfree : Draft.SlashFree (sections.foldl Draft.add {}).nodes := by
      intro e he
      obtain ⟨i, hi⟩ := List.mem_iff_getElem?.mp he
      have htree := Draft.mem_trees.mpr ⟨i, e, hi, rfl⟩
      simpa using hslash _ (horder.perm.mem_iff.mpr htree)
    refine ⟨sections, _, rfl, horder, hsound.addressed hfree, ?_⟩
    rintro before s after rfl
    constructor
    · intro l path hlive hpath hdot
      -- The nodes that the sections before have placed are among those of the scene.
      have hbefore : Draft.SlashFree (before.foldl Draft.add {}).nodes := by
        intro e he
        refine hfree e ?_
        rw [List.foldl_append, (Draft.foldl_add_takes _ (s :: after)).nodes]
        exact List.mem_append_left _ he
      have hwarned := Draft.warned_iff hlive hpath
      rw [(Draft.sound_empty.foldl before).anchor?_eq_none_iff hbefore hdot] at hwarned
      simpa [ofSections, List.foldl_append] using hwarned
    · have hprefix := Draft.warnings_prefix_foldl ((before ++ [s]).foldl Draft.add {}) after
      simpa [ofSections, List.foldl_append] using hprefix

def nestedScene : String :=
  "[node name=\"M\" type=\"N\"][node name=\"A\" type=\"N\" parent=\".\"]" ++
    "[node name=\"B\" type=\"N\" parent=\"A\"][node name=\"C\" type=\"N\" parent=\"X\"]"

theorem Scene.read_addressed_nested : ∃ scene warnings,
    Scene.read nestedScene = .ok (scene, warnings) ∧
      (∀ n ∈ scene.nodes.drop 1, '/' ∉ n.name.toList) ∧
      ∃ sections order, Section.readAll nestedScene = .ok sections ∧
        InFileOrder (Draft.lives {} sections) scene order ∧ scene.Addressed order ∧
        ∀ before s after, sections = before ++ s :: after →
          s.ToldMissing before ∧ (ofSections (before ++ [s])).2 <+: warnings := by
  have hnames : (Scene.read nestedScene).toOption.map (fun made => made.1.nodes.map (·.name)) =
      some ["M", "A", "B"] := by decide +kernel
  cases hread : Scene.read nestedScene with
  | error _ => rw [hread] at hnames; cases hnames
  | ok made =>
    obtain ⟨scene, warnings⟩ := made
    rw [hread] at hnames
    have hall : scene.nodes.map (·.name) = ["M", "A", "B"] := Option.some.inj hnames
    have hslash : ∀ n ∈ scene.nodes.drop 1, '/' ∉ n.name.toList := by
      intro n hn
      have hname : n.name ∈ ["M", "A", "B"] := by
        rw [← hall]
        exact List.mem_map_of_mem (List.mem_of_mem_drop hn)
      have hplain : ∀ name ∈ ["M", "A", "B"], '/' ∉ name.toList := by decide +kernel
      exact hplain _ hname
    exact ⟨scene, warnings, rfl, hslash, read_addressed hread hslash⟩

end SceneDiagram
