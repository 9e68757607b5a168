import SceneDiagram.CommandLine.Run

/-!
# The program

The program reads its arguments, complains about a log level that it does not
know, and runs. Its exit code tells a failed run from arguments that give none.
-/

namespace SceneDiagram.CommandLine

open Text

structure Execution where
  exitCode : Nat
  output : String := ""
  complaints : List String := []
  disk : Disk

def versionText : String := "scenery-cli 0.1.0\n"

def helpText : String := join "" <| [
  "Command-line interface generating PlantUML architecture diagrams from game scenes",
  "",
  "Usage: scenery [OPTIONS] [PROJECT]",
  "",
  "Arguments:",
  "  [PROJECT]  Path to the project directory [default: .]",
  "",
  "Options:",
  "  -d, --declarations <DECLARATIONS>  Declaration manifest (TOML). Defaults to `<project>/scenery.toml`",
  "  -o, --output-dir <OUTPUT_DIR>      Directory receiving the generated documents. Defaults to the project directory",
  "  -c, --config <CONFIG>              Path to configuration file (TOML)",
  "      --log-level <LOG_LEVEL>        Log level (off, error, warn, info, debug, trace) [default: info]",
  "  -h, --help                         Print help",
  "  -V, --version                      Print version"].map (· ++ "\n")

def Notice.complaint : Notice → String
  | .help | .version => ""
  | .unknownArgument => "error: unexpected argument found"
  | .missingValue => "error: a value is required but none was supplied"
  | .repeatedOption => "error: an argument cannot be used multiple times"
  | .needlessValue => "error: unexpected value found"

def Notice.execution (disk : Disk) : Notice → Execution
  | .help => { exitCode := 0, output := helpText, disk }
  | .version => { exitCode := 0, output := versionText, disk }
  | notice => { exitCode := 2, complaints := [notice.complaint], disk }

def isLogLevel (level : String) : Bool :=
  ["off", "error", "warn", "info", "debug", "trace"].contains
    (String.ofList (level.toList.map Char.toLower))

def levelComplaints (level : String) : List String :=
  if isLogLevel level then []
  else ["Invalid log level: " ++ level ++ ". Using 'warn' instead."]

def lookedAt (args : List String) (settingsDir : Option Path) : List Path :=
  match Arguments.read args with
  | .error _ => []
  | .ok args =>
    let project := Path.mk args.project
    let configs := (args.config.map fun p => [Path.mk p]).getD (configPlaces settingsDir)
    let manifest := (args.declarations.map Path.mk).getD (manifestIn project)
    project :: manifest :: configs ++ (args.outputDir.map Path.mk).toList

def execute (args : List String) (settingsDir : Option Path) (disk : Disk) : Execution :=
  match Arguments.read args with
  | .error notice => notice.execution disk
  | .ok args =>
    let complaints := levelComplaints args.logLevel
    match run args settingsDir disk with
    | ⟨disk, none⟩ => { exitCode := 0, complaints, disk }
    | ⟨disk, some failure⟩ =>
      { exitCode := 1, complaints := complaints ++ ["error: " ++ failure.text], disk }

end SceneDiagram.CommandLine
