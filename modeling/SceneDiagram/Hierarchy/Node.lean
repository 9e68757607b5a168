import SceneDiagram.Project
import SceneDiagram.Scene

/-!
# Hierarchy nodes

A node stands for a scene file or for the types of one source file. It keeps
its children in the order in which they were found, and the first edge to a
child counts.
-/

namespace SceneDiagram.Hierarchy

inductive Edge
  | contained
  | member (property : String)
  deriving DecidableEq, Repr

def Edge.label? : Edge → Option String
  | .contained => none
  | .member property => some property

inductive Origin
  | scene (scene : Scene)
  | code
  deriving Repr

structure Node where
  name : String
  origin : Origin
  file : FileRef
  script : Option FileRef
  declarations : List Declaration := []
  /-- The position of the backing type among the declarations. -/
  backingAt : Option Nat := none
  interfaceAt : Option Nat := none
  children : List (String × Edge) := []
  parents : List String := []
  deriving Repr

namespace Node

-- ---------------------------------------------------------------------------
-- Making nodes
-- ---------------------------------------------------------------------------

def ofScene? (scene : Scene) (file : FileRef) (script : Option FileRef) : Option Node :=
  scene.root.map fun root =>
    { name := root.name, origin := .scene scene, file := file, script := script }

def ofDeclarations (name : String) (file : FileRef) (declarations : List Declaration) : Node :=
  { name := name, origin := .code, file := file, script := some file,
    declarations := declarations }

def attach (n : Node) (declarations : List Declaration) : Node :=
  { n with declarations := n.declarations ++ declarations }

/-- Chooses the backing type, a class named like the node if there is one, else
the first class, and the interface that the convention names. -/
def settle (n : Node) (interfacePrefix : String) : Node :=
  let named := n.declarations.findIdx? fun d => d.kind.isClassLike && d.name == n.name
  { n with
    backingAt := named <|> n.declarations.findIdx? (·.kind.isClassLike)
    interfaceAt := n.declarations.findIdx? fun d =>
      !d.kind.isClassLike && d.name == interfaceName interfacePrefix n.name }

-- ---------------------------------------------------------------------------
-- Facts
-- ---------------------------------------------------------------------------

def isScene (n : Node) : Bool :=
  match n.origin with
  | .scene _ => true
  | .code => false

def sceneRoot? (n : Node) : Option SceneNode :=
  match n.origin with
  | .scene scene => scene.root
  | .code => none

def backing? (n : Node) : Option Declaration := n.backingAt.bind (n.declarations[·]?)

def interface? (n : Node) : Option Declaration := n.interfaceAt.bind (n.declarations[·]?)

def properties (n : Node) : List Member := (n.backing?.map (·.properties)).getD []

def marker? (n : Node) : Option Marker := n.backing?.bind (·.marker)

def hasChildren (n : Node) : Bool := !n.children.isEmpty

def isRoot (n : Node) : Bool := n.parents.isEmpty

/-- The file that links to the node's own code lead to: its script or, without
one, its file. -/
def sourceFile (n : Node) : FileRef := n.script.getD n.file

-- ---------------------------------------------------------------------------
-- Edges
-- ---------------------------------------------------------------------------

def hasChild (n : Node) (child : String) : Bool := n.children.any (·.1 == child)

/-- Adds a child, unless the node has it, and tells whether it was new. -/
def addChild (n : Node) (child : String) (edge : Edge) : Node × Bool :=
  if n.hasChild child then (n, false)
  else ({ n with children := n.children ++ [(child, edge)] }, true)

def addParent (n : Node) (parent : String) : Node × Bool :=
  if parent ∈ n.parents then (n, false)
  else ({ n with parents := n.parents ++ [parent] }, true)

def addChildren (n : Node) (edges : List (String × Edge)) : Node :=
  edges.foldl (fun n (child, edge) => (n.addChild child edge).1) n

def addParents (n : Node) (parents : List String) : Node :=
  parents.foldl (fun n parent => (n.addParent parent).1) n

@[simp] theorem addChildren_cons (n : Node) (edge : String × Edge) (edges : List (String × Edge)) :
    n.addChildren (edge :: edges) = (n.addChild edge.1 edge.2).1.addChildren edges := rfl

@[simp] theorem addParents_cons (n : Node) (parent : String) (parents : List String) :
    n.addParents (parent :: parents) = (n.addParent parent).1.addParents parents := rfl

@[simp] theorem name_addChild (n : Node) (child : String) (edge : Edge) :
    (n.addChild child edge).1.name = n.name := by
  unfold addChild; split <;> rfl

@[simp] theorem name_addParent (n : Node) (parent : String) :
    (n.addParent parent).1.name = n.name := by
  unfold addParent; split <;> rfl

end Node

end SceneDiagram.Hierarchy
