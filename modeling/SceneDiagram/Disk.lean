import SceneDiagram.Directory
import SceneDiagram.Failure

/-!
# Files behind paths

A disk is a directory tree seen from a working directory. Paths are followed
step by step: each step but the last has to lead through a folder, and a `..`
leads to the folder around. There are no links, so a place has one name. A path
that is too long as it is written leads nowhere, whatever it spells.
-/

namespace SceneDiagram

open Text

structure Disk where
  root : Directory
  /-- An absolute path. -/
  workingDir : Path

/-- A file name that a disk can hold: up to 255 bytes without a null. -/
def isFileName (name : String) : Bool :=
  name.utf8ByteSize ≤ 255 && !name.toList.contains '\x00'

def Path.isUsable (p : Path) : Bool :=
  p.text.utf8ByteSize ≤ 4095 && !p.text.toList.contains '\x00'

def Path.asksFolder (p : Path) : Bool :=
  match (split '/' p.text).getLast? with
  | some "" | some "." => true
  | _ => false

-- ---------------------------------------------------------------------------
-- Following steps
-- ---------------------------------------------------------------------------

namespace Directory

/-- The place that steps lead to from a place. Something has to stand there
only where further steps follow. -/
def follow? (d : Directory) (place : Place) : List Path.Component → Option Place
  | [] => some place
  | step :: steps =>
    if !d.hasFolder place then none
    else match step with
      | .root | .here => d.follow? place steps
      | .up => d.follow? place.dropLast steps
      | .name n => d.follow? (place ++ [n]) steps

def makeFolders (d : Directory) (place : Place) : List Path.Component → Directory × Bool
  | [] => (d, true)
  | .root :: steps | .here :: steps => d.makeFolders place steps
  | .up :: steps => d.makeFolders place.dropLast steps
  | .name n :: steps =>
    let next := place ++ [n]
    match d.find? next with
    | some (.folder _) => d.makeFolders next steps
    | some (.file _) => (d, false)
    | none =>
      if isFileName n then (d.put (.folder .empty) next).makeFolders next steps else (d, false)

end Directory

namespace Disk

-- ---------------------------------------------------------------------------
-- Looking
-- ---------------------------------------------------------------------------

def steps (d : Disk) (p : Path) : List Path.Component := (d.workingDir.resolve p).components

def place? (d : Disk) (p : Path) : Option Place :=
  if p.text = "" ∨ !p.isUsable then none else d.root.follow? [] (d.steps p)

/-- What a path leads to. A path that ends in a slash leads to no file. -/
def entry? (d : Disk) (p : Path) : Option Entry := do
  let place ← d.place? p
  match ← d.root.find? place with
  | .file content => if p.asksFolder then none else some (.file content)
  | .folder entries => some (.folder entries)

def exists? (d : Disk) (p : Path) : Bool := (d.entry? p).isSome

def readText (d : Disk) (p : Path) : Except FileFault String :=
  match d.entry? p with
  | none => .error .notFound
  | some (.folder _) => .error (.custom "is a directory")
  | some (.file content) => match String.fromUTF8? content with
    | some text => .ok text
    | none => .error .invalidData

/-- The files below a path whose names are shown, in the order of a walk. A
path that leads to a file stands for itself. The walk enters each folder by its
path. -/
def filesWhere (d : Disk) (shown : String → Bool) (p : Path) : Except FileFault (List Path) :=
  match d.entry? p with
  | none => .error .notFound
  | some (.file _) => .ok [p]
  | some (.folder entries) =>
    let below := fun (place : Place) => place.foldl Path.child p
    if (entries.foldersWhere shown).all fun place => (below place).isUsable then
      .ok ((entries.filesWhere shown).map fun (place, _) => below place)
    else .error (.custom "path too long")

/-- The path from the root, without `.` and repeated slashes. A `..` and a
trailing slash stay, and two slashes in front stay two. -/
def absolute? (d : Disk) (p : Path) : Option Path :=
  if p.text = "" then none
  else
    let front :=
      if !p.isAbsolute then d.workingDir
      else match p.text.toList with
        | '/' :: '/' :: '/' :: _ => ⟨"/"⟩
        | '/' :: '/' :: _ => ⟨"//"⟩
        | _ => ⟨"/"⟩
    let whole := (p.components.filterMap Path.Component.shown?).foldl Path.child front
    some (if p.text.toList.getLast? = some '/' then whole.child "" else whole)

-- ---------------------------------------------------------------------------
-- Changing
-- ---------------------------------------------------------------------------

def makeFolders (d : Disk) (p : Path) : Disk × Bool :=
  if !p.isUsable then (d, false)
  else
    let (root, made) := d.root.makeFolders [] (d.steps p)
    ({ d with root }, made)

def writeInto (d : Disk) (p : Path) (content : ByteArray) : Option Disk := do
  let place ← d.place? p
  let name ← p.fileName?
  if p.asksFolder ∨ !isFileName name then none
  else match d.root.find? place with
    | some (.folder _) => none
    | _ => some { d with root := d.root.put (.file content) place }

/-- Writes a file and makes the folders around it. Those that were made stay
where the file cannot be written. -/
def write (d : Disk) (p : Path) (content : ByteArray) : Disk × Option FileFault :=
  let (d, made) := d.makeFolders p.parent
  match made, d.writeInto p content with
  | true, some d => (d, none)
  | _, _ => (d, some (.custom "cannot be written"))

def remove (d : Disk) (p : Path) : Disk :=
  match d.place? p with
  | some place => { d with root := d.root.remove place }
  | none => d

/-- Removes files one after the other, and stops where a path leads to none. -/
def removeFiles (d : Disk) : List Path → Disk × Option FileFault
  | [] => (d, none)
  | p :: rest => match d.entry? p with
    | some (.file _) => (d.remove p).removeFiles rest
    | _ => (d, some .notFound)

end Disk

end SceneDiagram
