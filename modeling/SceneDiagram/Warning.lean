import SceneDiagram.Diagnostic
import SceneDiagram.Path

/-!
# Warnings

What a pass leaves out of its result, in the order in which it was met.
-/

namespace SceneDiagram

inductive Warning
  | scene (path : Path) (source : String) (diagnostic : Diagnostic)
  | missingRoot (path : Path)
  | duplicateName (name kept ignored : String)
  deriving DecidableEq, Repr

def Warning.text : Warning → String
  | .scene path _ diagnostic => path.text ++ ": " ++ diagnostic.text
  | .missingRoot path => path.text ++ ": scene has no root node"
  | .duplicateName name kept ignored =>
    "duplicate node name `" ++ name ++ "`: keeping " ++ kept ++ ", ignoring " ++ ignored

end SceneDiagram
