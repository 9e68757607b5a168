import SceneDiagram.Text.Split

/-!
# Arguments

A run takes one plain argument, the project, and options with a value. A value
stands behind a long name and `=`, directly behind a letter, or in the next
argument, which may not look like an option. Behind `--` all arguments are
plain.
-/

namespace SceneDiagram.CommandLine

open Text

structure Arguments where
  project : String := "."
  /-- The manifest, if not the one in the project. -/
  declarations : Option String := none
  outputDir : Option String := none
  config : Option String := none
  logLevel : String := "info"
  deriving DecidableEq, Repr

inductive Notice
  | help
  | version
  | unknownArgument
  | missingValue
  | repeatedOption
  | needlessValue
  deriving DecidableEq, Repr

inductive Setting
  | declarations
  | outputDir
  | config
  | logLevel
  deriving DecidableEq, Repr

inductive Flag
  | setting (setting : Setting)
  | notice (notice : Notice)
  deriving DecidableEq, Repr

def Flag.named? : String → Option Flag
  | "declarations" => some (.setting .declarations)
  | "output-dir" => some (.setting .outputDir)
  | "config" => some (.setting .config)
  | "log-level" => some (.setting .logLevel)
  | "help" => some (.notice .help)
  | "version" => some (.notice .version)
  | _ => none

def Flag.lettered? : Char → Option Flag
  | 'd' => some (.setting .declarations)
  | 'o' => some (.setting .outputDir)
  | 'c' => some (.setting .config)
  | 'h' => some (.notice .help)
  | 'V' => some (.notice .version)
  | _ => none

-- ---------------------------------------------------------------------------
-- Reading
-- ---------------------------------------------------------------------------

structure Reading where
  project : Option String := none
  settings : List (Setting × String) := []
  /-- The latest option, with its value if that was the next argument. -/
  pending : Option (Setting × Option String) := none
  /-- Was there a `--`? -/
  plain : Bool := false

namespace Reading

def give (r : Reading) (setting : Setting) (value : String) : Except Notice Reading :=
  if (r.settings.lookup setting).isSome then .error .repeatedOption
  else .ok { r with settings := r.settings ++ [(setting, value)] }

def settle (r : Reading) : Except Notice Reading :=
  match r.pending with
  | none => .ok r
  | some (_, none) => .error .missingValue
  | some (setting, some value) => { r with pending := none }.give setting value

def takeFlag (r : Reading) (flag : Option Flag) (value : Option String) : Except Notice Reading :=
  match flag, value with
  | none, _ => .error .unknownArgument
  | some (.notice _), some _ => .error .needlessValue
  | some (.notice notice), none => do
    let _ ← r.settle
    .error notice
  | some (.setting setting), some value => do (← r.settle).give setting value
  | some (.setting setting), none => do return { (← r.settle) with pending := some (setting, none) }

def takePlain (r : Reading) (arg : String) : Except Notice Reading :=
  if r.project.isSome then .error .unknownArgument
  else do return { (← r.settle) with project := some arg }

def takeLong (r : Reading) (body : List Char) : Except Notice Reading :=
  let name := body.takeWhile (· != '=')
  let value := (body.drop name.length).tail?.map String.ofList
  r.takeFlag (Flag.named? (String.ofList name)) value

def takeShort (r : Reading) (letter : Char) (body : List Char) : Except Notice Reading :=
  match Flag.lettered? letter, body with
  | some (.notice notice), _ => r.takeFlag (some (.notice notice)) none
  | flag, [] => r.takeFlag flag none
  | flag, '=' :: value => r.takeFlag flag (some (String.ofList value))
  | flag, value => r.takeFlag flag (some (String.ofList value))

def take (r : Reading) (arg : String) : Except Notice Reading :=
  if r.plain then r.takePlain arg
  else match arg.toList, r.pending with
    | ['-', '-'], _ => .ok { r with plain := true }
    | '-' :: '-' :: body, _ => r.takeLong body
    | '-' :: letter :: body, _ => r.takeShort letter body
    | _, some (setting, none) => .ok { r with pending := some (setting, some arg) }
    | _, _ => r.takePlain arg

end Reading

def Arguments.read (args : List String) : Except Notice Arguments := do
  let r ← (← args.foldlM Reading.take {}).settle
  let given := fun setting => r.settings.lookup setting
  return {
    project := r.project.getD "."
    declarations := given .declarations
    outputDir := given .outputDir
    config := given .config
    logLevel := (given .logLevel).getD "info" }

end SceneDiagram.CommandLine
