import SceneDiagram.Text.Alphanumeric
import SceneDiagram.Text.Uppercase
import SceneDiagram.Text.Split

/-!
# Class names from file names

A class name is the file name up to its first point, with the first character
of every alphanumeric run in upper case and everything between runs dropped.
-/

namespace SceneDiagram.Text

/-- Joins the alphanumeric runs of a text; the first character of a run is
raised when `raise` says that a run begins here. -/
def joinRuns (raise : Bool) : List Char → List Char
  | [] => []
  | c :: cs =>
    if !isAlphanumeric c then joinRuns true cs
    else if raise then upper c ++ joinRuns false cs
    else c :: joinRuns false cs

def pascalCase (s : String) : String := String.ofList (joinRuns true s.toList)

def lastPart (path : List Char) : List Char :=
  (path.reverse.takeWhile fun c => c != '/' && c != '\\').reverse

def className (path : String) : String :=
  pascalCase (String.ofList ((lastPart path.toList).takeWhile (· != '.')))

end SceneDiagram.Text
