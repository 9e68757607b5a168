import SceneDiagram.Config
import SceneDiagram.Declaration
import SceneDiagram.Disk
import SceneDiagram.Toml.Document

/-!
# Configuration and manifest files

The configuration comes from the file that the arguments name, else from the
working directory, else from the directory of the user's settings. The manifest
with the declared types lies in the project unless the arguments name another.
-/

namespace SceneDiagram.CommandLine

/-- The directory of the user's settings, by the variables that may name it and
the home directory. -/
def settingsDir? (configHome home : Option String) : Option Path :=
  let given := (configHome.map Path.mk).filter Path.isAbsolute
  given <|> home.map fun dir => (Path.mk dir).child ".config"

def readData {α : Type} (disk : Disk) (p : Path) (what : String) (ofData? : Data → Option α) :
    Except Failure α := do
  let text ← (disk.readText p).mapError Failure.io
  match (Toml.read? text).bind ofData? with
  | some a => return a
  | none => throw (.config ("Failed to parse " ++ what ++ " " ++ p.text))

-- ---------------------------------------------------------------------------
-- Configuration
-- ---------------------------------------------------------------------------

def readConfig (disk : Disk) (p : Path) : Except Failure Config :=
  readData disk p "TOML configuration" Config.ofData?

def configPlaces (settingsDir : Option Path) : List Path :=
  ⟨"scenery/config.toml"⟩ ::
    (settingsDir.map fun dir => (dir.child "scenery").child "config.toml").toList

/-- The configuration of a run. Where there is no file, all settings have their
own values. -/
def loadConfig (disk : Disk) (settingsDir : Option Path) (given : Option Path) :
    Except Failure Config :=
  match given with
  | some p =>
    if disk.exists? p then readConfig disk p
    else .error (.config ("Missing configuration file: " ++ p.text))
  | none => match (configPlaces settingsDir).find? disk.exists? with
    | some p => readConfig disk p
    | none => .ok {}

-- ---------------------------------------------------------------------------
-- Manifest
-- ---------------------------------------------------------------------------

/-- The types that a manifest declares. Its notation writes nothing as a list or
table without entries. -/
def manifestTypes? (d : Data) : Option (List Declaration) := do
  Entries.orElse? (← d.record? ["types"]) "types" []
    (Data.listOf? (Declaration.ofData? Data.isEmpty))

def readManifest (disk : Disk) (p : Path) : Except Failure (List Declaration) :=
  readData disk p "declaration manifest" manifestTypes?

def manifestIn (project : Path) : Path := project.child "scenery.toml"

/-- The declared types of a project. A project without a manifest has none. -/
def loadDeclarations (disk : Disk) (project : Path) (given : Option Path) :
    Except Failure (List Declaration) :=
  match given with
  | some p =>
    if disk.exists? p then readManifest disk p
    else .error (.config ("Missing declaration manifest: " ++ p.text))
  | none =>
    let p := manifestIn project
    if disk.exists? p then readManifest disk p else .ok []

end SceneDiagram.CommandLine
