import SceneDiagram.Span

/-!
# Diagnostics

What is wrong with a scene text, and where. Errors stop the reading of a file;
warnings tell what was left out of the result.
-/

namespace SceneDiagram

inductive Severity
  | error
  | warning
  deriving DecidableEq, Repr

def Severity.text : Severity → String
  | .error => "error"
  | .warning => "warning"

namespace Diagnostic

inductive Code
  | unterminatedString
  | unexpectedCharacter
  | unexpectedToken
  | incompleteInput
  | parentNotFound
  | secondRoot
  | duplicateResource
  deriving DecidableEq, Repr

/-- The code by which a cause is looked up: the first digit names the phase. -/
def Code.id : Code → String
  | .unterminatedString => "E001"
  | .unexpectedCharacter => "E002"
  | .unexpectedToken => "E100"
  | .incompleteInput => "E101"
  | .parentNotFound => "E200"
  | .secondRoot => "E201"
  | .duplicateResource => "E202"

def Code.description : Code → String
  | .unterminatedString => "unterminated string literal"
  | .unexpectedCharacter => "unexpected character"
  | .unexpectedToken => "unexpected token"
  | .incompleteInput => "incomplete input"
  | .parentNotFound => "parent node not found"
  | .secondRoot => "multiple root nodes"
  | .duplicateResource => "duplicate external resource id"

/-- A remark on a place. Primary labels mark the fault, others what it refers to. -/
structure Label where
  span : Span
  message : String
  primary : Bool
  deriving DecidableEq, Repr

end Diagnostic

structure Diagnostic where
  severity : Severity
  message : String
  code : Option Diagnostic.Code := none
  labels : List Diagnostic.Label := []
  help : Option String := none
  deriving DecidableEq, Repr

namespace Diagnostic

def text (d : Diagnostic) : String :=
  let code := match d.code with
    | some c => "[" ++ c.id ++ "]"
    | none => ""
  d.severity.text ++ code ++ ": " ++ d.message

def isError (d : Diagnostic) : Bool := d.severity == .error

end Diagnostic

structure Malformed where
  diagnostics : List Diagnostic
  deriving DecidableEq, Repr

namespace Malformed

def text (m : Malformed) : String :=
  match m.diagnostics with
  | [] => ""
  | [d] => d.text
  | d :: more => d.text ++ " (+" ++ toString more.length ++ " more)"

end Malformed

/-- A phase that reported nothing but warnings has succeeded. -/
def Diagnostic.settle (ds : List Diagnostic) : Except Malformed (List Diagnostic) :=
  if ds.any isError then .error ⟨ds⟩ else .ok ds

end SceneDiagram
