import SceneDiagram.Proofs.Scene.Resources
import SceneDiagram.Proofs.Scene.Tree

/-!
# What becomes of a section

A node section with a name and a type is live, where the type may come from the
resources declared before it (`Live.Among`). `ofSections_accounts`: every live
section is the root, one node of the tree, or the subject of one warning, and the
tree and the warnings hold nothing else. `add_takes` says what one section adds to a
draft; all that a file adds follows from it.
-/

namespace SceneDiagram

/-- The path of the parent that a node section asks for; what is not quoted is no path. -/
def Section.parentPath? (s : Section) : Option String :=
  (s.lookup? "parent").map fun parent => parent.value.quotedText?.getD ""

def Section.nameSpan (s : Section) : Span := ((s.lookup? "name").map (·.span)).getD s.tag.span

theorem SceneNode.below_own {n : SceneNode} (h : n.parentPath = path) :
    { n with parentPath := path } = n := by
  cases n
  cases h
  rfl

def Diagnostic.places (code : Diagnostic.Code) (ds : List Diagnostic) : List (Option Span) :=
  (ds.filter (·.code == some code)).map fun d => d.labels.head?.map (·.span)

/-- A live section, as it is met: its node, and what the sections before it have made. -/
structure Live where
  before : Draft
  source : Section
  node : SceneNode
  tag : source.tag.value = "node"
  name : source.quotedName? "name" = some node.name
  type : before.typeOf? source = some (node.script, node.typeName)
  groups : node.groups = source.groups.eraseDups
  parent : node.parentPath = source.parentPath?
  bare : node.children = []

namespace Live

def isParentless (l : Live) : Bool := l.source.parentPath?.isNone

def anchor? (l : Live) : Option Anchor := l.source.parentPath?.bind l.before.anchor?

def isPlaced (l : Live) : Bool := l.anchor?.isSome

def isOrphan (l : Live) : Bool := l.source.parentPath?.isSome && l.anchor?.isNone

/-- Is there a root already when a section without a parent is met? -/
def isSecond (l : Live) : Bool := l.isParentless && l.before.root.isSome

def hung? (l : Live) : Option (SceneNode × Anchor) := l.anchor?.map (l.node, ·)

theorem parts (l : Live) : l.isParentless.toNat + l.isOrphan.toNat + l.isPlaced.toNat = 1 := by
  unfold isParentless isOrphan isPlaced anchor?
  cases l.source.parentPath? with
  | none => rfl
  | some path => cases h : l.before.anchor? path <;> simp [h]

theorem name_ne_empty (l : Live) : l.node.name ≠ "" := by
  simpa using (Option.filter_eq_some_iff.mp l.name).2

end Live

/-- A node section that has a name and, by the resources declared so far, a type. -/
structure Section.IsLive (xs : List External) (s : Section) : Prop where
  tag : s.tag.value = "node"
  name : ∃ name, s.quotedName? "name" = some name
  type : ∃ script typeName, s.Typed xs script typeName

/-- The live sections of a list in front of which the resources `xs` are declared. -/
inductive Live.Among : List External → List Section → List Live → Prop
  | nil : Among xs [] []
  | live : l.source = s → s.Typed xs l.node.script l.node.typeName →
    Among (xs ++ s.external?.toList) ss ls → Among xs (s :: ss) (l :: ls)
  | other : ¬ s.IsLive xs → Among (xs ++ s.external?.toList) ss ls → Among xs (s :: ss) ls

namespace Draft

variable {d d₁ d₂ : Draft} {s : Section} {ls ls₁ ls₂ : List Live} {xs : List External}

def live? (d : Draft) (s : Section) : Option Live :=
  if tag : s.tag.value = "node" then
    match name : s.quotedName? "name", type : d.typeOf? s with
    | some own, some (script, typeName) =>
      let node : SceneNode :=
        { name := own, typeName := typeName, script := script, parentPath := s.parentPath?,
          groups := s.groups.eraseDups }
      some ⟨d, s, node, tag, name, type, rfl, rfl, rfl⟩
    | _, _ => none
  else none

def lives (d : Draft) : List Section → List Live
  | [] => []
  | s :: ss => (d.live? s).toList ++ (d.add s).lives ss

def reported (d : Draft) (code : Diagnostic.Code) : List (Option Span) :=
  Diagnostic.places code d.warnings

-- ---------------------------------------------------------------------------
-- One section
-- ---------------------------------------------------------------------------

/-- What live sections add to a draft. -/
structure Takes (d : Draft) (ls : List Live) (d₁ : Draft) : Prop where
  root : d₁.root =
    (d.root <|> (ls.find? (·.isParentless)).map fun l => (l.node, l.source.nameSpan))
  nodes : d₁.nodes = d.nodes ++ ls.filterMap (·.hung?)
  seconds : d₁.reported .secondRoot =
    d.reported .secondRoot ++ (ls.filter (·.isSecond)).map fun l => some l.source.nameSpan
  orphans : d₁.reported .parentNotFound = d.reported .parentNotFound ++
    (ls.filter (·.isOrphan)).map fun l => (l.source.lookup? "parent").map (·.span)

theorem Takes.refl (d : Draft) : Takes d [] d :=
  ⟨by simp, by simp, by simp, by simp⟩

theorem Takes.trans (h₁ : Takes d ls₁ d₁) (h₂ : Takes d₁ ls₂ d₂) : Takes d (ls₁ ++ ls₂) d₂ where
  root := by
    rw [h₂.root, h₁.root, List.find?_append]
    cases d.root <;> cases ls₁.find? (·.isParentless) <;> rfl
  nodes := by rw [h₂.nodes, h₁.nodes, List.filterMap_append, List.append_assoc]
  seconds := by rw [h₂.seconds, h₁.seconds, List.filter_append, List.map_append, List.append_assoc]
  orphans := by rw [h₂.orphans, h₁.orphans, List.filter_append, List.map_append, List.append_assoc]

theorem reported_warn (d : Draft) (code other : Diagnostic.Code) (message : String)
    (labels : List Diagnostic.Label) (help : String) :
    (d.warn code message labels help).reported other =
      d.reported other ++ if code = other then [labels.head?.map (·.span)] else [] := by
  by_cases h : code = other <;> simp [reported, Diagnostic.places, warn, List.filter_append, h]

theorem takes_of_same (hroot : d₁.root = d.root) (hnodes : d₁.nodes = d.nodes)
    (hseconds : d₁.reported .secondRoot = d.reported .secondRoot)
    (horphans : d₁.reported .parentNotFound = d.reported .parentNotFound) : Takes d [] d₁ :=
  ⟨by simp [hroot], by simp [hnodes], by simp [hseconds], by simp [horphans]⟩

theorem addResource_takes (d : Draft) (s : Section) : Takes d [] (d.addResource s) := by
  unfold addResource
  split
  · split
    · refine takes_of_same rfl rfl ?_ ?_ <;> simp [reported_warn]
    · split <;> exact takes_of_same rfl rfl rfl rfl
  · exact Takes.refl d

theorem live?_source (h : d.live? s = some l) : l.before = d ∧ l.source = s := by
  unfold live? at h
  split at h
  · split at h
    · cases h
      exact ⟨rfl, rfl⟩
    · cases h
  · cases h

theorem nodeOf?_eq (d : Draft) (hs : s.tag.value = "node") :
    d.nodeOf? s = (d.live? s).map fun l => { l.node with parentPath := none } := by
  unfold live?
  rw [dif_pos hs]
  split
  · next hname htype =>
    simp [nodeOf?, hname, htype, SceneNode.inGroups]
  · next hnone =>
    rw [nodeOf?]
    split
    · next hname htype => exact (hnone _ _ _ hname htype).elim
    · rfl

theorem addNode_eq (d : Draft) (hs : s.tag.value = "node") : d.addNode s =
    match d.live? s with
    | none => d
    | some l => match s.lookup? "parent" with
      | none => d.addRoot s l.node
      | some parent => d.addBelow l.node parent := by
  rw [addNode, nodeOf?_eq d hs]
  cases hlive : d.live? s with
  | none => rfl
  | some l => cases hparent : s.lookup? "parent" with
    | none =>
      have hnone : l.node.parentPath = none := by
        rw [l.parent, (live?_source hlive).2, Section.parentPath?, hparent]
        rfl
      exact congrArg (d.addRoot s) (SceneNode.below_own hnone)
    | some parent => rfl

theorem addRoot_takes (h : d.live? s = some l) (hparent : s.lookup? "parent" = none) :
    Takes d [l] (d.addRoot s l.node) := by
  obtain ⟨hbefore, hsource⟩ := live?_source h
  have hpath : l.source.parentPath? = none := by rw [hsource, Section.parentPath?, hparent]; rfl
  have hparentless : l.isParentless := by rw [Live.isParentless, hpath]; rfl
  have hanchor : l.anchor? = none := by rw [Live.anchor?, hpath]; rfl
  have hentry : l.hung? = none := by rw [Live.hung?, hanchor]; rfl
  have horphan : l.isOrphan = false := by rw [Live.isOrphan, hpath]; rfl
  have hsecond : l.isSecond = d.root.isSome := by
    rw [Live.isSecond, hparentless, hbefore, Bool.true_and]
  unfold addRoot
  cases hroot : d.root with
  | none =>
    have hplain : l.isSecond = false := by rw [hsecond, hroot]; rfl
    constructor
    · simp [hparentless, hroot, hsource, Section.nameSpan]
    · simp [hentry]
    · simp [hplain, reported]
    · simp [horphan, reported]
  | some first =>
    have hsecond : l.isSecond = true := by rw [hsecond, hroot]; rfl
    constructor
    · simp [hroot, warn]
    · simp [hentry, warn]
    · simp [hsecond, reported_warn, hsource, Section.nameSpan]
    · simp [horphan, reported_warn]

theorem addBelow_takes (h : d.live? s = some l) (hparent : s.lookup? "parent" = some parent) :
    Takes d [l] (d.addBelow l.node parent) := by
  obtain ⟨hbefore, hsource⟩ := live?_source h
  have hpath : s.parentPath? = some (parent.value.quotedText?.getD "") := by
    rw [Section.parentPath?, hparent]
    rfl
  have hparentless : l.isParentless = false := by rw [Live.isParentless, hsource, hpath]; rfl
  have hsecond : l.isSecond = false := by rw [Live.isSecond, hparentless, Bool.false_and]
  have hanchor : l.anchor? = d.anchor? (parent.value.quotedText?.getD "") := by
    rw [Live.anchor?, hsource, hpath, hbefore]
    rfl
  have horphan : l.isOrphan = (d.anchor? (parent.value.quotedText?.getD "")).isNone := by
    rw [Live.isOrphan, hsource, hpath, hanchor, Option.isSome_some, Bool.true_and]
  unfold addBelow
  simp only
  cases hfound : d.anchor? (parent.value.quotedText?.getD "") with
  | none =>
    constructor
    · simp [hparentless, warn]
    · simp [Live.hung?, hanchor, hfound, warn]
    · simp [hsecond, reported_warn]
    · simp [horphan, hfound, reported_warn, hsource, hparent]
  | some anchor =>
    have hplaced := SceneNode.below_own (l.parent.trans (hsource.symm ▸ hpath))
    constructor
    · simp [hparentless]
    · simp [Live.hung?, hanchor, hfound, hplaced]
    · simp [hsecond, reported]
    · simp [horphan, hfound, reported]

/-- A section adds what it declares if it is live, and nothing else but resources. -/
theorem add_takes (d : Draft) (s : Section) : Takes d (d.live? s).toList (d.add s) := by
  unfold add
  split
  · next hs =>
    have hlive : d.live? s = none := by simp [live?, hs]
    rw [hlive]
    exact addResource_takes d s
  · split
    · next hs =>
      rw [addNode_eq d hs]
      cases hlive : d.live? s with
      | none => exact Takes.refl d
      | some l =>
        cases hparent : s.lookup? "parent" with
        | none => exact addRoot_takes hlive hparent
        | some parent => exact addBelow_takes hlive hparent
    · next hs =>
      rw [live?, dif_neg hs]
      exact Takes.refl d

theorem foldl_add_takes (d : Draft) (sections : List Section) :
    Takes d (d.lives sections) (sections.foldl add d) := by
  induction sections generalizing d with
  | nil => exact Takes.refl d
  | cons s ss ih => exact (add_takes d s).trans (ih (d.add s))

/-- A node as it stands in a draft, on the root or on the first earlier node with the
full name that it gives as its parent. -/
structure HangsOn (earlier : List (SceneNode × Anchor)) (e : SceneNode × Anchor) : Prop where
  name : e.1.name ≠ ""
  anchor : ∃ path, e.1.parentPath = some path ∧ (path = "." ∧ e.2 = .root ∨
    path ≠ "." ∧ ∃ j, earlier.findIdx? (·.1.fullName == path) = some j ∧ e.2 = .placed j)

structure Sound (d : Draft) : Prop where
  rooted : d.root = none → d.nodes = []
  hung : ∀ (i : Nat) e, d.nodes[i]? = some e → HangsOn (d.nodes.take i) e

theorem sound_empty : Sound {} :=
  ⟨fun _ => rfl, nofun⟩

theorem Sound.hangsOn (h : d.Sound) (hlive : d.live? s = some l) (he : l.hung? = some e) :
    HangsOn d.nodes e ∧ d.root ≠ none := by
  obtain ⟨hbefore, hsource⟩ := live?_source hlive
  obtain ⟨anchor, hanchor, rfl⟩ := Option.map_eq_some_iff.mp he
  obtain ⟨path, hpath, hanchor⟩ := Option.bind_eq_some_iff.mp hanchor
  rw [hbefore, anchor?] at hanchor
  rw [← l.parent] at hpath
  split at hanchor
  · next hdot =>
    obtain ⟨r, hr, rfl⟩ := Option.map_eq_some_iff.mp hanchor
    exact ⟨⟨l.name_ne_empty, path, hpath, .inl ⟨hdot, rfl⟩⟩, by simp [hr]⟩
  · next hdot =>
    obtain ⟨j, hj, rfl⟩ := Option.map_eq_some_iff.mp hanchor
    refine ⟨⟨l.name_ne_empty, path, hpath, .inr ⟨hdot, j, hj, rfl⟩⟩, fun hnone => ?_⟩
    rw [h.rooted hnone] at hj
    cases hj

theorem Sound.nodes_add (h : d.Sound) (s : Section) : (d.add s).nodes = d.nodes ∨
    ∃ e, (d.add s).nodes = d.nodes ++ [e] ∧ HangsOn d.nodes e ∧ d.root ≠ none := by
  rw [(add_takes d s).nodes]
  cases hlive : d.live? s with
  | none => exact .inl (by simp)
  | some l => cases he : l.hung? with
    | none => exact .inl (by simp [he])
    | some e => exact .inr ⟨e, by simp [he], h.hangsOn hlive he⟩

theorem root_of_root_add (h : (d.add s).root = none) : d.root = none := by
  rw [(add_takes d s).root] at h
  cases hroot : d.root with
  | none => rfl
  | some first => rw [hroot] at h; cases h

theorem hung_push {nodes : List (SceneNode × Anchor)}
    (h : ∀ (i : Nat) e, nodes[i]? = some e → HangsOn (nodes.take i) e) (he : HangsOn nodes e) :
    ∀ (i : Nat) e', (nodes ++ [e])[i]? = some e' → HangsOn ((nodes ++ [e]).take i) e' := by
  intro i e' hi
  -- Earlier nodes still hang on nodes before them: only the end of the list is new.
  rcases Nat.lt_trichotomy i nodes.length with hlt | rfl | hgt
  · rw [List.getElem?_append_left hlt] at hi
    rw [List.take_append_of_le_length (Nat.le_of_lt hlt)]
    exact h i e' hi
  · rw [List.getElem?_concat_length] at hi
    cases hi
    rwa [List.take_left]
  · rw [List.getElem?_eq_none (by simp; omega)] at hi
    cases hi

theorem Sound.add (h : d.Sound) (s : Section) : (d.add s).Sound := by
  rcases h.nodes_add s with hsame | ⟨e, hnodes, hhangs, hroot⟩
  · refine ⟨fun hnone => ?_, by rw [hsame]; exact h.hung⟩
    rw [hsame]
    exact h.rooted (root_of_root_add hnone)
  · refine ⟨fun hnone => absurd (root_of_root_add hnone) hroot, ?_⟩
    rw [hnodes]
    exact hung_push h.hung hhangs

theorem Sound.foldl (h : d.Sound) (sections : List Section) :
    (sections.foldl Draft.add d).Sound := by
  induction sections generalizing d with
  | nil => exact h
  | cons s ss ih => exact ih (h.add s)

theorem Sound.earlier (h : d.Sound) : Earlier d.nodes := by
  intro i j n hi
  obtain ⟨path, -, ⟨-, hroot⟩ | ⟨-, k, hk, hplaced⟩⟩ := (h.hung i _ hi).anchor
  · cases hroot
  · cases hplaced
    have hlt := (List.findIdx?_eq_some_iff_getElem.mp hk).1
    simp only [List.length_take] at hlt
    omega

-- ---------------------------------------------------------------------------
-- A whole file
-- ---------------------------------------------------------------------------

theorem filterMap_hung? (ls : List Live) :
    (ls.filterMap (·.hung?)).map (·.1.bare) = (ls.filter (·.isPlaced)).map (·.node) := by
  induction ls with
  | nil => rfl
  | cons l ls ih =>
    have hbare := SceneNode.bare_eq l.bare
    cases hanchor : l.anchor? with
    | none => simpa [Live.hung?, Live.isPlaced, hanchor] using ih
    | some anchor => simpa [Live.hung?, Live.isPlaced, hanchor, hbare] using ih

end Draft

def Scene.nodes (s : Scene) : List SceneNode :=
  s.root.elim [] fun root => root :: root.descendants

namespace Draft.Sound

variable {d : Draft}

theorem perm_nodes (h : d.Sound) : (d.scene.nodes.drop 1).Perm (trees d.nodes) := by
  cases hroot : d.root with
  | none => simp [Scene.nodes, scene, hroot, h.rooted hroot, trees]
  | some root =>
    simpa [Scene.nodes, scene, hroot, SceneNode.descendants_eq] using h.earlier.perm_trees

theorem children_sublist (h : d.Sound) (hn : n ∈ d.scene.nodes) :
    n.children.Sublist (trees d.nodes) := by
  cases hroot : d.root with
  | none => simp [Scene.nodes, scene, hroot] at hn
  | some root =>
    simp only [Scene.nodes, scene, hroot, Option.map_some, Option.elim_some, List.mem_cons,
      SceneNode.descendants_eq] at hn
    rcases hn with rfl | hn
    · exact h.earlier.subtrees_sublist _
    · exact h.earlier.children_sublist (h.earlier.perm_trees.mem_iff.mp hn)

end Draft.Sound

/-- The nodes below the root of a scene as they follow each other in the file: what the placed
sections declare, each with all that hangs on it. -/
structure InFileOrder (ls : List Live) (scene : Scene) (order : List SceneNode) : Prop where
  declared : order.map (·.bare) = (ls.filter (·.isPlaced)).map (·.node)
  perm : (scene.nodes.drop 1).Perm order
  children : ∀ n ∈ scene.nodes, n.children.Sublist order

theorem Draft.Sound.inFileOrder {d : Draft} (h : d.Sound) (htakes : Takes {} ls d) :
    InFileOrder ls d.scene (trees d.nodes) := by
  have hnodes : d.nodes = ls.filterMap (·.hung?) := by simpa using htakes.nodes
  refine ⟨?_, h.perm_nodes, fun n hn => h.children_sublist hn⟩
  rw [map_bare_trees, hnodes, filterMap_hung?]

/-- Where live sections have gone: into the tree, or into a warning. -/
structure Accounts (sections : List Section) (ls : List Live) (scene : Scene)
    (warnings : List Diagnostic) : Prop where
  live : Live.Among [] sections ls
  /-- The root is what the first live section without a parent declares. -/
  root : scene.root.map (·.bare) = (ls.find? (·.isParentless)).map (·.node)
  /-- A section is placed if its parent is the root or a node placed before it. -/
  placed : ∀ front l back, ls = front ++ l :: back →
    (l.isPlaced ↔ ∃ path, l.source.parentPath? = some path ∧
      (path = "." ∧ (∃ r ∈ front, r.isParentless) ∨
        path ≠ "." ∧ ∃ m ∈ front, m.isPlaced ∧ m.node.fullName = path))
  tree : ∃ order, InFileOrder ls scene order
  /-- The other sections without a parent have a warning each. -/
  seconds : Diagnostic.places .secondRoot warnings =
    (ls.filter (·.isParentless)).tail.map fun l => some l.source.nameSpan
  orphans : Diagnostic.places .parentNotFound warnings =
    (ls.filter (·.isOrphan)).map fun l => (l.source.lookup? "parent").map (·.span)
  total : scene.nodes.length + (Diagnostic.places .secondRoot warnings).length +
    (Diagnostic.places .parentNotFound warnings).length = ls.length

end SceneDiagram
