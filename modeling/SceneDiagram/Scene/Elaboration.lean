import SceneDiagram.Scene
import SceneDiagram.Section.Parser

/-!
# From sections to a scene

Sections are taken in file order: external resources fill the registries, nodes
the tree, all other sections count for nothing. A node without a parent is the
root. Whatever cannot be placed is left out with a warning: a second root, a
node whose parent has not been seen, a resource whose id is taken.
-/

namespace SceneDiagram

open Text

namespace Section

def attributeText? (s : Section) (key : String) : Option String :=
  (s.attribute? key).bind (·.value.scalarText?)

def attributeName? (s : Section) (key : String) : Option String :=
  (s.attributeText? key).filter (· ≠ "")

def quotedName? (s : Section) (key : String) : Option String :=
  ((s.lookup? key).bind (·.value.quotedText?)).filter (· ≠ "")

def resourceId? (s : Section) (key : String) : Option String :=
  (s.lookup? key).bind (·.value.resourceId?)

/-- The groups that a node is put into: the quoted items that are not blank. -/
def groups (s : Section) : List String :=
  match s.lookup? "groups" with
  | some ⟨.array items, _⟩ =>
    (items.filterMap (·.value.quotedText?)).filter (trim · ≠ "")
  | _ => []

end Section

/-- What a node below the root hangs on: the root, or the node placed at this
position. -/
inductive Anchor
  | root
  | placed (position : Nat)
  deriving DecidableEq, Repr

structure Draft where
  scripts : List (String × Script) := []
  resources : List (String × Resource) := []
  ids : List (String × Span) := []
  root : Option (SceneNode × Span) := none
  /-- The nodes below the root in file order, without children, each with what
  it hangs on. -/
  nodes : List (SceneNode × Anchor) := []
  warnings : List Diagnostic := []

namespace Draft

def warn (d : Draft) (code : Diagnostic.Code) (message : String) (labels : List Diagnostic.Label)
    (help : String) : Draft :=
  { d with warnings := d.warnings ++ [⟨.warning, message, some code, labels, some help⟩] }

-- ---------------------------------------------------------------------------
-- Resources
-- ---------------------------------------------------------------------------

/-- Takes in an external resource. One without type, path or id is none; of
those with one id the first counts. -/
def addResource (d : Draft) (s : Section) : Draft :=
  match s.attributeText? "type", s.attributeName? "path", s.attributeName? "id" with
  | some kind, some path, some id =>
    let span := ((s.attribute? "id").map (·.span)).getD s.tag.span
    match d.ids.lookup id with
    | some first =>
      d.warn .duplicateResource ("duplicate external resource id `" ++ id ++ "`")
        [⟨span, "duplicate id", true⟩, ⟨first, "first declared here", false⟩]
        "the first resource with this id is kept"
    | none =>
      let d := { d with ids := d.ids ++ [(id, span)] }
      if kind = "Script" then { d with scripts := d.scripts ++ [(id, .ofPath path)] }
      else
        { d with resources := d.resources ++ [(id, ⟨s.attributeName? "uid", id, kind, path⟩)] }
  | _, _, _ => d

-- ---------------------------------------------------------------------------
-- Nodes
-- ---------------------------------------------------------------------------

/-- The script of a node and its type: the class of the script, else the type
that is written, else the class of the scene it is an instance of. -/
def typeOf? (d : Draft) (s : Section) : Option (Option Script × String) :=
  match (s.resourceId? "script").bind (d.scripts.lookup ·) with
  | some script => some (some script, script.className)
  | none =>
    match s.quotedName? "type" with
    | some typeName => some (none, typeName)
    | none =>
      let instanced := (s.resourceId? "instance").bind (d.resources.lookup ·)
      ((instanced.map (·.className)).filter (· ≠ "")).map (none, ·)

/-- The node that a section declares, without its place in the tree. A section
without a name or without a type declares none. -/
def nodeOf? (d : Draft) (s : Section) : Option SceneNode :=
  match s.quotedName? "name", d.typeOf? s with
  | some name, some (script, typeName) =>
    let node : SceneNode := { name := name, typeName := typeName, script := script }
    some (node.inGroups s.groups)
  | _, _ => none

/-- What the path of a parent stands for, among the nodes seen so far: `.` is
the root, any other path the first node with that full name. -/
def anchor? (d : Draft) (path : String) : Option Anchor :=
  if path = "." then d.root.map fun _ => .root
  else (d.nodes.findIdx? (·.1.fullName == path)).map .placed

def addRoot (d : Draft) (s : Section) (node : SceneNode) : Draft :=
  let span := ((s.lookup? "name").map (·.span)).getD s.tag.span
  match d.root with
  | none => { d with root := some (node, span) }
  | some (_, first) =>
    d.warn .secondRoot
      ("node `" ++ node.name ++ "` has no parent but the scene already has a root")
      [⟨span, "second root node", true⟩, ⟨first, "root declared here", false⟩]
      "add a `parent` attribute; the node is ignored"

def addBelow (d : Draft) (node : SceneNode) (parent : Spanned Value) : Draft :=
  let path := parent.value.quotedText?.getD ""
  match d.anchor? path with
  | some anchor => { d with nodes := d.nodes ++ [({ node with parentPath := some path }, anchor)] }
  | none =>
    d.warn .parentNotFound
      ("could not find parent node `" ++ path ++ "` for node `" ++ node.name ++ "`")
      [⟨parent.span, "unknown parent path", true⟩]
      "the node is dropped from the scene tree"

def addNode (d : Draft) (s : Section) : Draft :=
  match d.nodeOf? s with
  | none => d
  | some node =>
    match s.lookup? "parent" with
    | none => d.addRoot s node
    | some parent => d.addBelow node parent

def add (d : Draft) (s : Section) : Draft :=
  if s.tag.value = "ext_resource" then d.addResource s
  else if s.tag.value = "node" then d.addNode s
  else d

-- ---------------------------------------------------------------------------
-- The tree
-- ---------------------------------------------------------------------------

/-- The subtrees that hang on `anchor`, where `nodes` are those from `position`
on. A node hangs on an earlier one only, so its own children come later. -/
def subtrees (position : Nat) : List (SceneNode × Anchor) → Anchor → List SceneNode
  | [], _ => []
  | (node, above) :: nodes, anchor =>
    let others := subtrees (position + 1) nodes anchor
    if above = anchor then
      { node with children := subtrees (position + 1) nodes (.placed position) } :: others
    else others

def scene (d : Draft) : Scene :=
  { root := d.root.map fun (node, _) => { node with children := subtrees 0 d.nodes .root }
    scripts := d.scripts
    resources := d.resources }

end Draft

def Scene.ofSections (sections : List Section) : Scene × List Diagnostic :=
  let d := sections.foldl Draft.add {}
  (d.scene, d.warnings)

def Scene.read (source : String) : Except Malformed (Scene × List Diagnostic) :=
  (Section.readAll source).map Scene.ofSections

end SceneDiagram
