import SceneDiagram.Document
import SceneDiagram.Hierarchy.Graph

/-!
# Drawing a hierarchy

Each root gets a document: the class of the root and, for a node with children,
a package with the drawings of the children and the relations to them. The
class lists its file, the members that its interface shows, and those children
that no shown property holds.
-/

namespace SceneDiagram

open Hierarchy Text

inductive LinkStyle
  | absolute (protocol : String)
  /-- By climbing out of the directories of the document, and from there along
  `base` to the project. -/
  | relative (depth : Nat) (base : String)
  deriving DecidableEq, Repr

namespace LinkStyle

/-- The style of a document at a path below the output directory: it climbs one
directory for each slash. -/
def ofDocument (outputPath base : String) : LinkStyle :=
  .relative ((split '/' outputPath).length - 1) base

def target : LinkStyle → FileRef → String
  | .absolute protocol, file => protocol ++ "://file/" ++ file.absolute.slashPath
  | .relative depth base, file => repeated depth "../" ++ base ++ file.relative

end LinkStyle

structure Drawing where
  graph : Graph
  style : LinkStyle
  interfacePrefix : String

namespace Drawing

-- ---------------------------------------------------------------------------
-- Labels and links
-- ---------------------------------------------------------------------------

/-- Does a declared type name the node, itself or as its interface? -/
def namesNode (w : Drawing) (typeName name : String) : Bool :=
  typeName == name || implementedType? w.interfacePrefix typeName == some name

/-- The member of a node that holds a child: the one that the edge is labelled
with, else the first property whose type names the child. -/
def memberLabel? (w : Drawing) (n : Node) (child : String) (edge : Edge) : Option String :=
  edge.label? <|> (n.properties.find? fun p => w.namesNode p.valueType child).map (·.name)

def memberLink (w : Drawing) (n : Node) (m : Member) (behind : String) : Link :=
  { target := w.style.target n.sourceFile, line := m.line, label := some (m.name ++ behind) }

def childLink (w : Drawing) (child : Node) : Link :=
  { target := w.style.target child.sourceFile
    label := some (if child.script.isSome then "Script" else "Scene") }

-- ---------------------------------------------------------------------------
-- Classes
-- ---------------------------------------------------------------------------

def shared (kind : MemberKind) (cls iface : Declaration) : List Member :=
  ((cls.membersOf kind).filter fun m => (iface.find? kind m.name).isSome).mergeSort
    fun a b => !decide (b.name < a.name)

def heldBy? (w : Drawing) (n : Node) (property : String) : Option (String × Edge) :=
  n.children.find? fun (child, edge) => w.memberLabel? n child edge == some property

def propertyLine (w : Drawing) (n : Node) (p : Member) : MemberLine :=
  { isPublic := true
    content := (w.memberLink n p "").text
    child := ((w.heldBy? n p.name).bind (w.graph.find? ·.1)).map w.childLink }

def methodLine (w : Drawing) (n : Node) (m : Member) : MemberLine :=
  { isPublic := true, content := (w.memberLink n m "()").text }

/-- What stands for a child that no shared property holds: the property that
holds it, else its first instance in the scene of the node, else its name. -/
def externalText (w : Drawing) (n : Node) (child : String) (edge : Edge) : String :=
  let property? := (w.memberLabel? n child edge).bind fun label =>
    n.backing?.bind (·.find? .property label)
  match property? with
  | some p => (w.memberLink n p "").text
  | none =>
    let instance? := n.sceneRoot?.bind fun root =>
      root.walk.toList.find? (·.typeName == child)
    (instance?.map (·.name)).getD child

def linked (w : Drawing) (n : Node) (properties : List Member) : List String :=
  properties.filterMap fun p => (w.heldBy? n p.name).map (·.1)

def externalLines (w : Drawing) (n : Node) (properties : List Member) : List MemberLine :=
  (n.children.filter (·.1 ∉ w.linked n properties)).filterMap fun (name, edge) =>
    (w.graph.find? name).map fun child =>
      { isPublic := false
        content := w.externalText n name edge
        child := some (w.childLink child) }

def classBlock (w : Drawing) (n : Node) : ClassBlock :=
  let (properties, methods) := match n.backing?, n.interface? with
    | some cls, some iface => (shared .property cls iface, shared .method cls iface)
    | _, _ => ([], [])
  let shown := n.backing?.isSome && n.interface?.isSome
  { name := n.name
    spotted := n.script.isNone
    link :=
      { target := w.style.target n.sourceFile
        label := some (if n.script.isSome then "ScriptFile" else "SceneFile") }
    sections :=
      (if shown then [properties.map (w.propertyLine n), methods.map (w.methodLine n)] else [])
        ++ [w.externalLines n properties] }

-- ---------------------------------------------------------------------------
-- Documents
-- ---------------------------------------------------------------------------

def relationTo? (w : Drawing) (n : Node) (name : String) (edge : Edge) : Option Block :=
  (w.graph.find? name).map fun child =>
    .relation
      { source := n.name
        member := w.memberLabel? n name edge
        target := name
        extended := child.hasChildren }

def package (w : Drawing) (n : Node) (drawn : List Block) : Block :=
  .package (n.name ++ if n.isScene then "Scene" else "Type")
    { target := w.style.target n.file }
    (drawn ++ n.children.filterMap fun (name, edge) => w.relationTo? n name edge)

/-- The blocks of a node and all below it, if that is less than `depth` steps
deep. -/
def blocksWithin? (w : Drawing) : Nat → Node → Option (List Block)
  | 0, _ => none
  | depth + 1, n =>
    if n.hasChildren then do
      let children := n.children.filterMap fun (name, _) => w.graph.find? name
      let drawn ← children.mapM (w.blocksWithin? depth)
      return [.classBlock (w.classBlock n), w.package n drawn.flatten]
    else some [.classBlock (w.classBlock n)]

/-- The blocks of a node and all below it. Without cycles no way down is longer
than there are nodes. -/
def blocks (w : Drawing) (n : Node) : List Block :=
  (w.blocksWithin? w.graph.nodes.length n).getD []

end Drawing

structure Diagram where
  path : String
  name : String
  text : String
  deriving DecidableEq, Repr

namespace Diagram

/-- The path of the document of a root: side by side and named by the root, or
beside its file and named like it. -/
def outputPath (config : DiagramConfig) (root : Node) : String :=
  let stem :=
    if config.flattenOutput then root.name
    else Path.slashed (Path.withoutExtension ⟨root.file.relative⟩)
  stem ++ config.outputSuffix

/-- The link style of the document of a root, as the root's marker says or else
the configuration. -/
def linkStyle (config : DiagramConfig) (root : Node) (base : String) : LinkStyle :=
  if (root.marker?.map (·.useAbsoluteIdeLinks)).getD config.useAbsoluteIdeLinks then
    .absolute config.ideProtocol
  else .ofDocument (outputPath config root) base

def ofRoot (graph : Graph) (config : Config) (base : String) (root : Node) : Diagram :=
  let drawing : Drawing :=
    ⟨graph, linkStyle config.diagram root base, config.analysis.interfacePrefix⟩
  { path := outputPath config.diagram root
    name := root.name
    text := documentText (drawing.blocks root) }

end Diagram

end SceneDiagram
