import SceneDiagram.Config
import SceneDiagram.Hierarchy.Registry
import SceneDiagram.Scene.Walk

/-!
# The hierarchy graph

A node holds every node that its scene contains at any depth and every node
that a property of its backing type is typed as. Containment comes first, and
the first edge to a child counts. The parents of a node are those that hold it.
-/

namespace SceneDiagram.Hierarchy

structure Graph where
  nodes : List Node
  deriving Repr

def Registry.graph (r : Registry) (interfacePrefix : String) : Graph :=
  ⟨r.nodes.map (·.settle interfacePrefix)⟩

namespace Graph

def find? (g : Graph) (name : String) : Option Node := g.nodes.find? (·.name == name)

def has (g : Graph) (name : String) : Bool := (g.find? name).isSome

def roots (g : Graph) : List Node := g.nodes.filter (·.isRoot)

-- ---------------------------------------------------------------------------
-- Wiring
-- ---------------------------------------------------------------------------

/-- The node that a declared type stands for: the one named like the type or,
failing that, like the type that an interface stands for. -/
def resolve? (g : Graph) (typeName interfacePrefix : String) : Option String :=
  ((typeName :: (implementedType? interfacePrefix typeName).toList).filter (· ≠ "")).find? g.has

def contained (g : Graph) (n : Node) : List (String × Edge) :=
  let names := (n.sceneRoot?.map fun root => root.walk.toList.map (·.name)).getD []
  (names.filter g.has).map (·, .contained)

def held (g : Graph) (analysis : AnalysisConfig) (n : Node) : List (String × Edge) :=
  (n.properties.filter (!·.hasAttribute analysis.skipAttribute)).filterMap fun p =>
    (g.resolve? p.valueType analysis.interfacePrefix).map (·, .member p.name)

/-- The node with its children. No node is its own child. -/
def withChildren (g : Graph) (analysis : AnalysisConfig) (n : Node) : Node :=
  n.addChildren ((g.contained n ++ g.held analysis n).filter (·.1 ≠ n.name))

def holders (g : Graph) (child : String) : List String :=
  (g.nodes.filter (·.hasChild child)).map (·.name)

def withParents (g : Graph) (n : Node) : Node := n.addParents (g.holders n.name)

def wire (g : Graph) (analysis : AnalysisConfig) : Graph :=
  let linked : Graph := ⟨g.nodes.map (g.withChildren analysis)⟩
  ⟨linked.nodes.map linked.withParents⟩

end Graph

end SceneDiagram.Hierarchy
