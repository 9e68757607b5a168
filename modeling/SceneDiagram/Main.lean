import SceneDiagram.CommandLine.Program

/-!
# The command

Copies what a run looks at onto a disk, runs on that disk, and carries the
changes over to the file system.
-/

namespace SceneDiagram.CommandLine

/-- Copies a file, or what is not hidden in a directory. Links inside a directory
are not followed. -/
partial def load (disk : Disk) (p : Path) : IO Disk := do
  let here := (← IO.currentDir) / p.text
  if ← here.isDir then
    let mut disk := (disk.makeFolders p).1
    for entry in ← here.readDir do
      let type := (← entry.path.symlinkMetadata).type
      if !isHidden entry.fileName && (type == .dir || type == .file) then
        disk ← load disk (p.child entry.fileName)
    return disk
  else if ← here.pathExists then return (disk.write p (← IO.FS.readBinFile here)).1
  else return disk

def ofPlace (place : Place) : Path := place.foldl Path.child ⟨"/"⟩

def store (before after : Disk) : IO Unit := do
  for (place, content) in before.root.written after.root do
    IO.FS.createDirAll (ofPlace place.dropLast).text
    IO.FS.writeBinFile (ofPlace place).text content
  for place in before.root.removed after.root do
    IO.FS.removeFile (ofPlace place).text

end SceneDiagram.CommandLine

open SceneDiagram SceneDiagram.CommandLine

def main (args : List String) : IO UInt32 := do
  let settingsDir := settingsDir? (← IO.getEnv "XDG_CONFIG_HOME") (← IO.getEnv "HOME")
  let workingDir : Path := ⟨(← IO.currentDir).toString⟩
  let empty : Disk := ⟨.empty, workingDir⟩
  let disk ← (lookedAt args settingsDir).foldlM load (empty.makeFolders workingDir).1
  let execution := execute args settingsDir disk
  store disk execution.disk
  IO.print execution.output
  execution.complaints.forM (IO.eprintln ·)
  return execution.exitCode.toUInt32
