import SceneDiagram.Hierarchy.Node
import SceneDiagram.Warning

/-!
# Registering nodes

Every scene with a root and every group of declarations that share a source
file asks for a node. Names are unique: the first to ask for a name has it, and
declarations named like a scene belong to the node of that scene.
-/

namespace SceneDiagram.Hierarchy

structure Registry where
  dir : Path
  nodes : List Node := []
  warnings : List Warning := []
  deriving Repr

-- ---------------------------------------------------------------------------
-- Groups of declarations
-- ---------------------------------------------------------------------------

/-- Declarations that share a source file, under the spelling seen first. -/
structure Group where
  file : Path
  declarations : List Declaration
  deriving DecidableEq, Repr

def Group.insert (d : Declaration) : List Group → List Group
  | [] => [⟨d.file, [d]⟩]
  | g :: groups =>
    if g.file.same d.file then { g with declarations := g.declarations ++ [d] } :: groups
    else g :: insert d groups

def Group.ofDeclarations (ds : List Declaration) : List Group :=
  ds.foldl (fun groups d => insert d groups) []

namespace Registry

-- ---------------------------------------------------------------------------
-- Nodes
-- ---------------------------------------------------------------------------

def find? (r : Registry) (name : String) : Option Node := r.nodes.find? (·.name == name)

def warn (r : Registry) (w : Warning) : Registry := { r with warnings := r.warnings ++ [w] }

def insert (r : Registry) (n : Node) : Registry :=
  match r.find? n.name with
  | some kept => r.warn (.duplicateName n.name kept.file.relative n.file.relative)
  | none => { r with nodes := r.nodes ++ [n] }

def addScene (r : Registry) (path : Path) (scene : Scene) : Registry :=
  let script := scene.script?.map fun s => FileRef.inProject r.dir (FileRef.resourcePath s.path)
  match Node.ofScene? scene (FileRef.inProject r.dir path) script with
  | some n => r.insert n
  | none => r.warn (.missingRoot path)

def awaitsDeclarations (n : Node) : Bool := n.isScene && n.declarations.isEmpty

/-- Registers a group of declarations: with the scene of that name where it has
none yet, else as a node of its own. -/
def addGroup (r : Registry) (g : Group) : Registry :=
  match g.file.nodeName? with
  | none => r
  | some name =>
    if (r.find? name).any awaitsDeclarations then
      { r with nodes := r.nodes.map fun n => if n.name == name then n.attach g.declarations else n }
    else r.insert (.ofDeclarations name (FileRef.inProject r.dir g.file) g.declarations)

def addDeclarations (r : Registry) (ds : List Declaration) : Registry :=
  (Group.ofDeclarations ds).foldl addGroup r

end Registry

end SceneDiagram.Hierarchy
