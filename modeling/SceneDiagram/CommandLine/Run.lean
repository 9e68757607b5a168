import SceneDiagram.CommandLine.Arguments
import SceneDiagram.CommandLine.Discovery
import SceneDiagram.CommandLine.Settings
import SceneDiagram.Generation

/-!
# A run

A run reads a project from a disk, makes a pass over it, and brings the output
directory up to date: it writes the documents of the pass and removes those of
earlier passes. A pass that fails leaves no documents.
-/

namespace SceneDiagram.CommandLine

structure Job where
  project : Path
  target : Path
  config : Config
  manifest : Option Path := none

structure Outcome where
  disk : Disk
  failure : Option Failure

-- ---------------------------------------------------------------------------
-- Reading
-- ---------------------------------------------------------------------------

def absolutePath (disk : Disk) (text : String) : Except Failure Path :=
  match disk.absolute? ⟨text⟩ with
  | some p => .ok p
  | none => .error (.io (.custom "cannot make an empty path absolute"))

def Job.ofArguments (args : Arguments) (settingsDir : Option Path) (disk : Disk) :
    Except Failure Job := do
  let project ← absolutePath disk args.project
  let target ← match args.outputDir with
    | some dir => absolutePath disk dir
    | none => pure project
  let config ← loadConfig disk settingsDir (args.config.map Path.mk)
  return { project, target, config, manifest := args.declarations.map Path.mk }

namespace Job

def readScene (job : Job) (disk : Disk) (p : Path) : Except Failure SceneSource := do
  let text ← (disk.readText p).mapError Failure.io
  return ⟨p.below job.project, text⟩

def readProject (job : Job) (disk : Disk) : Except Failure Project := do
  let paths ← (findScenes disk job.project job.config.analysis.sceneExtension).mapError Failure.io
  let scenes ← paths.mapM (job.readScene disk)
  let declarations ← loadDeclarations disk job.project job.manifest
  return { dir := job.project, outputDir := some job.target, scenes, declarations }

def generate (job : Job) (disk : Disk) : Except Failure Generation := do
  Generation.run job.config (← job.readProject disk) (.ok ())

-- ---------------------------------------------------------------------------
-- Writing
-- ---------------------------------------------------------------------------

def documentPath (job : Job) (diagram : Diagram) : Path := job.target.resolve ⟨diagram.path⟩

/-- Removes the documents below the output directory but for those to keep. -/
def sweep (job : Job) (keep : List Path) (disk : Disk) : Outcome :=
  match findDocuments disk job.target job.config.diagram.outputSuffix with
  | .error fault => ⟨disk, some (.io fault)⟩
  | .ok found =>
    let (disk, fault?) := disk.removeFiles (found.filter fun p => !keep.any p.same)
    ⟨disk, fault?.map Failure.io⟩

/-- Writes documents one after the other, and stops where one cannot be. -/
def write (job : Job) (disk : Disk) : List Diagram → Outcome
  | [] => ⟨disk, none⟩
  | diagram :: rest =>
    match disk.write (job.documentPath diagram) diagram.text.toUTF8 with
    | (disk, some fault) => ⟨disk, some (.io fault)⟩
    | (disk, none) => job.write disk rest

/-- Does what was asked for. A fault of the sweep hides why the pass failed. -/
def run (job : Job) (disk : Disk) : Outcome :=
  match job.generate disk with
  | .error failure =>
    let swept := job.sweep [] disk
    ⟨swept.disk, swept.failure <|> some failure⟩
  | .ok generation =>
    match job.write disk generation.diagrams with
    | ⟨disk, some failure⟩ => ⟨disk, some failure⟩
    | ⟨disk, none⟩ => job.sweep (generation.diagrams.map job.documentPath) disk

end Job

/-- Runs as the arguments ask. Without a usable configuration nothing changes. -/
def run (args : Arguments) (settingsDir : Option Path) (disk : Disk) : Outcome :=
  match Job.ofArguments args settingsDir disk with
  | .error failure => ⟨disk, some failure⟩
  | .ok job => job.run disk

end SceneDiagram.CommandLine
