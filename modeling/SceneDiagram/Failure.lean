import SceneDiagram.Diagnostic
import SceneDiagram.Path

/-!
# Failures

What stops a pass. Nothing is written by a pass that fails.
-/

namespace SceneDiagram

inductive FileFault
  | notFound
  | permissionDenied
  | invalidData
  | custom (message : String)
  deriving DecidableEq, Repr

def FileFault.text : FileFault → String
  | .notFound => "entity not found"
  | .permissionDenied => "permission denied"
  | .invalidData => "invalid data"
  | .custom message => message

inductive Failure
  | io (fault : FileFault)
  | malformed (cause : Malformed) (source : String) (path : Path)
  | cycle (name : String)
  | cancelled
  | config (message : String)
  deriving DecidableEq, Repr

def Failure.text : Failure → String
  | .io fault => "I/O error: " ++ fault.text
  | .malformed cause _ _ => cause.text
  | .cycle name => "Hierarchy cycle detected at `" ++ name ++ "`"
  | .cancelled => "Generation cancelled"
  | .config message => "Configuration error: " ++ message

end SceneDiagram
