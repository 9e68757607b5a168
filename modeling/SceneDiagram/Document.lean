import SceneDiagram.Text.Split

/-!
# Diagram documents

A document is a list of blocks: classes, packages of further blocks, and
relations. It is written one line per element, a tab deeper in each package.
-/

namespace SceneDiagram

open Text

structure Link where
  target : String
  line : Option Nat := none
  label : Option String := none
  deriving DecidableEq, Repr, Inhabited

def Link.text (l : Link) : String :=
  "[[" ++ l.target ++ (l.line.elim "" fun n => ":" ++ toString n)
    ++ (l.label.elim "" fun s => " " ++ s) ++ "]]"

structure MemberLine where
  isPublic : Bool
  content : String
  child : Option Link := none
  deriving DecidableEq, Repr

def MemberLine.text (m : MemberLine) : String :=
  (if m.isPublic then "+ " else "") ++ m.content ++ (m.child.elim "" fun l => " - " ++ l.text)

/-- A class. Its sections are set apart by rules; empty ones are left out. -/
structure ClassBlock where
  name : String
  spotted : Bool
  link : Link
  sections : List (List MemberLine)
  deriving DecidableEq, Repr

structure Relation where
  source : String
  member : Option String := none
  target : String
  /-- Has the child children of its own? -/
  extended : Bool
  deriving DecidableEq, Repr

def Relation.text (r : Relation) : String :=
  r.source ++ (r.member.elim "" fun m => "::" ++ m)
    ++ (if r.extended then " ---> " else " --> ") ++ r.target

inductive Block
  | classBlock (block : ClassBlock)
  | package (name : String) (link : Link) (body : List Block)
  | relation (relation : Relation)
  deriving Repr, Inhabited

def ClassBlock.body (c : ClassBlock) : List String :=
  c.link.text :: (c.sections.filter (!·.isEmpty)).flatMap fun lines =>
    "--" :: lines.map (·.text)

def ClassBlock.opening (c : ClassBlock) : String :=
  "class " ++ c.name ++ (if c.spotted then " << (S,black) >>" else "") ++ " \x7b"

mutual

/-- The lines of a block, without the indentation of what is around it. -/
def Block.lines : Block → List String
  | .classBlock c => c.opening :: c.body.map ("\t" ++ ·) ++ ["\x7d"]
  | .package name link body =>
    ("package " ++ name ++ " " ++ link.text ++ " \x7b") ::
      (linesOfAll body).map ("\t" ++ ·) ++ ["\x7d"]
  | .relation r => [r.text]

def linesOfAll : List Block → List String
  | [] => []
  | b :: bs => b.lines ++ linesOfAll bs

end

def documentText (blocks : List Block) : String :=
  join "" ((["@startuml"] ++ linesOfAll blocks ++ ["@enduml"]).map (· ++ "\n"))

end SceneDiagram
