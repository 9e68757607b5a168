import SceneDiagram.Disk

/-!
# Finding files

Scenes and earlier documents are found by walking a directory. Names that begin
with a point are hidden, and nothing below a hidden folder is found; the
directory itself may have any name. Both the point and the suffix are looked for in
names that are UTF-8, the only ones that directories have here.
-/

namespace SceneDiagram.CommandLine

open Text

def isHidden (name : String) : Bool := name.toList.head? == some '.'

def hasSuffix (suffix : String) (p : Path) : Bool :=
  p.fileName?.any fun name => (stripTail? suffix name).isSome

def visibleFiles (disk : Disk) (dir : Path) : Except FileFault (List Path) :=
  disk.filesWhere (!isHidden ·) dir

def findScenes (disk : Disk) (dir : Path) (extension : String) : Except FileFault (List Path) :=
  return (← visibleFiles disk dir).filter (·.extension? == some extension)

/-- The documents below a directory. A directory that is missing holds none. -/
def findDocuments (disk : Disk) (dir : Path) (suffix : String) : Except FileFault (List Path) :=
  if disk.exists? dir then return (← visibleFiles disk dir).filter (hasSuffix suffix) else .ok []

end SceneDiagram.CommandLine
