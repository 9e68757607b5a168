import SceneDiagram.Text.Split

/-!
# Paths

A path is kept as it was written and compared by its components: repeated and
trailing slashes and inner `.` do not count, `..` does. Nothing here looks at
a file system.

A path is a text. Paths that hold bytes outside of UTF-8 are left out, and with
them that such bytes are replaced where a path is written with slashes.
-/

namespace SceneDiagram

open Text

structure Path where
  text : String
  deriving DecidableEq, Repr

inductive Path.Component
  | root
  /-- The `.` in front of a relative path. -/
  | here
  | up
  | name (text : String)
  deriving DecidableEq, Repr

def Path.Component.text : Component → String
  | .root => "/"
  | .here => "."
  | .up => ".."
  | .name s => s

namespace Path

-- ---------------------------------------------------------------------------
-- Components
-- ---------------------------------------------------------------------------

def Component.ofPiece? (piece : String) : Option Component :=
  if piece = "" ∨ piece = "." then none
  else if piece = ".." then some .up
  else some (.name piece)

def isAbsolute (p : Path) : Bool := p.text.toList.head? == some '/'

/-- The steps of a path. A leading `.` is a step only of a relative path. -/
def components (p : Path) : List Component :=
  let parts := split '/' p.text
  let front :=
    if p.isAbsolute then [.root] else if parts.head? = some "." then [.here] else []
  front ++ parts.filterMap Component.ofPiece?

def same (p q : Path) : Bool := p.components == q.components

def Component.shown? : Component → Option String
  | .up => some ".."
  | .name s => some s
  | .root | .here => none

def slashed (steps : List Component) : String := join "/" (steps.filterMap Component.shown?)

def slashPath (p : Path) : String := slashed p.components

/-- What follows `lead` in a list of steps that begins with it. -/
def stepsAfter? (lead steps : List Component) : Option (List Component) :=
  match lead, steps with
  | [], steps => some steps
  | _ :: _, [] => none
  | l :: lead, s :: steps => if l = s then stepsAfter? lead steps else none

def below (p dir : Path) : Path :=
  match stepsAfter? dir.components p.components with
  | some steps => ⟨join "/" (steps.map Component.text)⟩
  | none => p

-- ---------------------------------------------------------------------------
-- Joining
-- ---------------------------------------------------------------------------

/-- The path `p` seen from the directory `base`; an absolute path stays. -/
def resolve (base p : Path) : Path :=
  if p.isAbsolute then p
  else if base.text = "" ∨ base.text.toList.getLast? = some '/' then ⟨base.text ++ p.text⟩
  else ⟨base.text ++ "/" ++ p.text⟩

def child (dir : Path) (name : String) : Path := dir.resolve ⟨name⟩

def parent (p : Path) : Path :=
  let isIdle := fun piece => piece == "" || piece == "."
  let pieces := (((split '/' p.text).reverse.dropWhile isIdle).drop 1).dropWhile isIdle
  if pieces.isEmpty ∧ p.isAbsolute then ⟨"/"⟩ else ⟨join "/" pieces.reverse⟩

-- ---------------------------------------------------------------------------
-- File names
-- ---------------------------------------------------------------------------

def fileName? (p : Path) : Option String :=
  match p.components.getLast? with
  | some (.name s) => some s
  | _ => none

/-- A file name cut at its last point. A name without a point, or with none
but in front, has no extension. -/
def cutExtension (name : String) : String × Option String :=
  let back := name.toList.reverse
  let tail := back.takeWhile (· != '.')
  match back.drop tail.length with
  | [] | [_] => (name, none)
  | _ :: stem => (String.ofList stem.reverse, some (String.ofList tail.reverse))

def stem? (p : Path) : Option String := p.fileName?.map fun n => (cutExtension n).1

def extension? (p : Path) : Option String := p.fileName?.bind fun n => (cutExtension n).2

/-- The steps with the extension of the last name dropped, and the point in front
of it. What is left counts as the step that it spells. A name such as `..x` keeps
that point, since without its extension it is a step up. -/
def withoutExtension (p : Path) : List Component :=
  match p.components.getLast? with
  | some (.name s) =>
    let stem := (cutExtension s).1
    p.components.dropLast ++ (Component.ofPiece? (if stem = "." then ".." else stem)).toList
  | _ => p.components

-- ---------------------------------------------------------------------------
-- Ways between directories
-- ---------------------------------------------------------------------------

def diverge : List Component → List Component → List Component × List Component
  | a :: as, b :: bs => if a = b then diverge as bs else (a :: as, b :: bs)
  | as, bs => (as, bs)

/-- The way from one directory to another: a `../` for each step to leave, then
each step to enter, with a slash behind it. Empty for one and the same. -/
def wayTo (source target : Path) : String :=
  let (leave, enter) := diverge
    (source.components.filter (· ≠ .here)) (target.components.filter (· ≠ .here))
  repeated leave.length "../" ++ join "" (enter.map (·.text ++ "/"))

end Path

def Path.nodeName? (p : Path) : Option String := p.stem?.filter (· ≠ "")

end SceneDiagram
