import SceneDiagram.Declaration
import SceneDiagram.Path

/-!
# Projects

What one pass reads: a directory, its scene files and the types its source
files declare. A file is known both as seen from the project and absolutely,
by paths that are UTF-8.
-/

namespace SceneDiagram

open Text

structure SceneSource where
  path : Path
  text : String
  deriving DecidableEq, Repr

structure Project where
  dir : Path
  outputDir : Option Path := none
  scenes : List SceneSource := []
  declarations : List Declaration := []
  deriving Repr

def Project.target (p : Project) : Path := p.outputDir.getD p.dir

structure FileRef where
  relative : String
  absolute : Path
  deriving DecidableEq, Repr

namespace FileRef

/-- The slash-separated path below the project directory. A path elsewhere keeps
all its names. -/
def relativeTo (dir file : Path) : String :=
  Path.slashed ((Path.stepsAfter? dir.components file.components).getD file.components)

def inProject (dir file : Path) : FileRef := ⟨relativeTo dir file, dir.resolve file⟩

def resourcePath (resource : String) : Path :=
  ⟨(stripLead? "res://" resource).getD resource⟩

end FileRef

end SceneDiagram
