import SceneDiagram.Text.PascalCase

/-!
# Scenes

A scene is a tree of named and typed nodes, with the scripts and other
resources that the file refers to. Registries keep the order of first
declaration.
-/

namespace SceneDiagram

structure Script where
  className : String
  path : String
  deriving DecidableEq, Repr

def Script.ofPath (path : String) : Script := ⟨Text.className path, path⟩

/-- An external resource that is no script. -/
structure Resource where
  uid : Option String
  id : String
  kind : String
  path : String
  deriving DecidableEq, Repr

def Resource.className (r : Resource) : String := Text.className r.path

structure SceneNode where
  name : String
  typeName : String
  /-- The path of the parent, as the file writes it. -/
  parentPath : Option String := none
  script : Option Script := none
  /-- The groups the node belongs to, each once. -/
  groups : List String := []
  children : List SceneNode := []
  deriving Repr, Inhabited

namespace SceneNode

def inGroups (n : SceneNode) (groups : List String) : SceneNode :=
  { n with groups := (n.groups ++ groups).eraseDups }

/-- The path of the node below the root. The root and its own children are
addressed by their bare names. -/
def fullName (n : SceneNode) : String :=
  match n.parentPath with
  | none | some "" | some "." => n.name
  | some parent => parent ++ "/" ++ n.name

def child? (n : SceneNode) (name : String) : Option SceneNode :=
  n.children.find? (·.name == name)

def descend? : SceneNode → List String → Option SceneNode
  | n, [] => some n
  | n, name :: names => (n.child? name).bind (descend? · names)

def select? (n : SceneNode) (path : String) : Option SceneNode :=
  if path = "" then none else n.descend? (Text.split '/' path)

end SceneNode

structure Scene where
  root : Option SceneNode := none
  /-- Scripts by the id that the file gives them. -/
  scripts : List (String × Script) := []
  resources : List (String × Resource) := []
  deriving Repr

def Scene.script? (s : Scene) : Option Script := s.root.bind (·.script)

end SceneDiagram
