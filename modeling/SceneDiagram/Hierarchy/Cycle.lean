import SceneDiagram.Hierarchy.Graph

/-!
# Cycles

A depth-first search finishes a node after all that it leads to. In the order
of finishing, read backwards, every edge of a graph without cycles leads
forward; an edge that leads backward lies on a cycle.
-/

namespace SceneDiagram.Hierarchy

/-- A depth-first search: the nodes met, and those finished, latest first. -/
structure Search where
  met : List String := []
  finished : List String := []

def Search.visit (next : String → List String) : Nat → Search → String → Search
  | 0, s, _ => s
  | depth + 1, s, name =>
    if name ∈ s.met then s
    else
      let s := (next name).foldl (visit next depth) { s with met := name :: s.met }
      { s with finished := name :: s.finished }

namespace Graph

def names (g : Graph) : List String := g.nodes.map (·.name)

def next (g : Graph) (name : String) : List String :=
  (g.find? name).elim [] fun n => (n.children.map (·.1)).filter g.has

/-- The names in the order that a depth-first search finishes them, the last
first. No search goes deeper than there are nodes. -/
def finishOrder (g : Graph) : List String :=
  (g.names.foldl (Search.visit g.next g.nodes.length) {}).finished

/-- The first edge into a list of names, of which `before` have gone, that does
not come from a name further ahead: its source. -/
def backward? (g : Graph) (before : List String) : List String → Option String
  | [] => none
  | name :: rest =>
    match (g.holders name).find? (· ∉ name :: before) with
    | some holder => some holder
    | none => backward? g (name :: before) rest

def cycle? (g : Graph) : Option String := g.backward? [] g.finishOrder

end Graph

end SceneDiagram.Hierarchy
