import SceneDiagram.Cancellation
import SceneDiagram.Diagram
import SceneDiagram.Hierarchy.Cycle
import SceneDiagram.Scene.Elaboration

/-!
# A pass over a project

Read every scene, register the nodes, wire them, refuse cycles, and draw one
document for each root. The pass gives all documents or none.
-/

namespace SceneDiagram

open Hierarchy

structure Generation where
  /-- In the order in which the roots were registered. -/
  diagrams : List Diagram
  /-- In the order in which they were met. -/
  warnings : List Warning
  deriving Repr

namespace Generation

def addSource (r : Registry) (source : SceneSource) : Except Failure Registry :=
  match Scene.read source.text with
  | .error cause => .error (.malformed cause source.text source.path)
  | .ok (scene, diagnostics) =>
    let r := diagnostics.foldl (fun r d => r.warn (.scene source.path source.text d)) r
    .ok (r.addScene source.path scene)

def register (project : Project) (check : Except Failure Unit) : Except Failure Registry := do
  let r ← project.scenes.foldlM (fun r source => do check; addSource r source)
    { dir := project.dir }
  return r.addDeclarations project.declarations

def drawnRoots (config : DiagramConfig) (graph : Graph) : List Node :=
  graph.roots.filter fun root => !config.requireOptIn || root.marker?.isSome

def draw (config : Config) (project : Project) (graph : Graph) : List Diagram :=
  let base := Path.wayTo project.target project.dir
  (drawnRoots config.diagram graph).map (Diagram.ofRoot graph config base)

/-- Runs a pass, which stops where `check` fails. -/
def run (config : Config) (project : Project) (check : Except Failure Unit) :
    Except Failure Generation := do
  let registry ← register project check
  check
  let graph := (registry.graph config.analysis.interfacePrefix).wire config.analysis
  match graph.cycle? with
  | some name => .error (.cycle name)
  | none => return ⟨draw config project graph, registry.warnings⟩

end Generation

end SceneDiagram
