import SceneDiagram.Failure
import SceneDiagram.Text.Quoted

/-!
# Reports

How failures are told to the user: a malformed scene by one report for each of
its diagnostics, any other failure by one report of its own.
-/

namespace SceneDiagram

open Text

inductive Report
  | diagnostic (diagnostic : Diagnostic) (path : Path)
  | failure (failure : Failure)
  deriving DecidableEq, Repr

def Failure.reports : Failure → List Report
  | .malformed cause _ path => cause.diagnostics.map (.diagnostic · path)
  | f => [.failure f]

namespace Report

def text : Report → String
  | .diagnostic d _ => d.message
  | .failure f => f.text

def code? : Report → Option String
  | .diagnostic d _ => d.code.map (·.id)
  | .failure f => match f with
    | .io _ => some "scenery::io"
    | .malformed .. => none
    | .cycle _ => some "scenery::cycle"
    | .cancelled => some "scenery::cancelled"
    | .config _ => some "scenery::config"

def severity? : Report → Option Severity
  | .diagnostic d _ => some d.severity
  | .failure _ => none

def help? : Report → Option String
  | .diagnostic d _ => d.help
  | .failure (.cycle _) =>
    some "scenes and declared members must form a tree; remove one edge of the cycle"
  | .failure _ => none

def labels : Report → List Diagnostic.Label
  | .diagnostic d _ => d.labels
  | .failure _ => []

def hasSource : Report → Bool
  | .diagnostic .. => true
  | .failure _ => false

def cause? : Report → Option String
  | .failure (.io fault) => some fault.text
  | _ => none

-- ---------------------------------------------------------------------------
-- The inner structure of a report
-- ---------------------------------------------------------------------------

def record (name : String) (fields : List (String × String)) : String :=
  name ++ " \x7b " ++ join ", " (fields.map fun (key, value) => key ++ ": " ++ value) ++ " \x7d"

def applied (name argument : String) : String := name ++ "(" ++ argument ++ ")"

def optional : Option String → String
  | none => "None"
  | some s => applied "Some" s

def labelStructure (l : Diagnostic.Label) : String :=
  let span := record "Span" [("start", toString l.span.start), ("end", toString l.span.stop)]
  record "Label" [("span", span), ("message", quoted l.message), ("is_primary", toString l.primary)]

def diagnosticStructure (d : Diagnostic) : String :=
  let severity := match d.severity with
    | .error => "Error"
    | .warning => "Warning"
  record "Diagnostic"
    [("severity", severity),
      ("code", optional (d.code.map (·.id))),
      ("message", quoted d.message),
      ("labels", "[" ++ join ", " (d.labels.map labelStructure) ++ "]"),
      ("help", optional (d.help.map quoted))]

def faultStructure : FileFault → String
  | .notFound => applied "Kind" "NotFound"
  | .permissionDenied => applied "Kind" "PermissionDenied"
  | .invalidData => applied "Kind" "InvalidData"
  | .custom message => record "Custom" [("kind", "Other"), ("error", quoted message)]

def failureStructure : Failure → String
  | .io fault => applied "Io" (faultStructure fault)
  | .malformed cause source path =>
    let diagnostics := "[" ++ join ", " (cause.diagnostics.map diagnosticStructure) ++ "]"
    record "Parse"
      [("err", record "ParseError" [("diagnostics", diagnostics)]),
        ("src", quoted source), ("path", quoted path.text)]
  | .cycle name => applied "Cycle" (quoted name)
  | .cancelled => "Cancelled"
  | .config message => applied "Config" (quoted message)

/-- The report on one line, with all its fields. -/
def structureText : Report → String
  | .diagnostic d path =>
    applied "Diagnostic"
      (record "DiagnosticAdapter"
        [("diag", diagnosticStructure d), ("source", quoted path.text)])
  | .failure f => applied "Error" (failureStructure f)

end Report

end SceneDiagram
