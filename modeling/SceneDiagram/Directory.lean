/-!
# Directory trees

A directory lists its files and folders, each name once and in ascending order
of names. Places in it are lists of names, the empty one for the directory
itself. A walk goes depth first, so it meets the files in ascending order of
their places.

Names are texts, and contents are bytes. A directory with a name outside of
UTF-8 is left out.
-/

namespace SceneDiagram

/-- The entries of a directory, in the order of their names. -/
inductive Directory
  | empty
  | file (name : String) (content : ByteArray) (rest : Directory)
  | folder (name : String) (entries : Directory) (rest : Directory)
  deriving Inhabited

inductive Entry
  | file (content : ByteArray)
  | folder (entries : Directory)

def Entry.isFileOf (content : ByteArray) : Entry → Bool
  | .file c => c.data == content.data
  | .folder _ => false

abbrev Place := List String

namespace Directory

-- ---------------------------------------------------------------------------
-- One level
-- ---------------------------------------------------------------------------

def cons (name : String) : Entry → Directory → Directory
  | .file content, rest => .file name content rest
  | .folder entries, rest => .folder name entries rest

def get? (name : String) : Directory → Option Entry
  | .empty => none
  | .file n content rest => if n = name then some (.file content) else rest.get? name
  | .folder n entries rest => if n = name then some (.folder entries) else rest.get? name

def set (name : String) (entry : Entry) : Directory → Directory
  | .empty => cons name entry .empty
  | .file n content rest =>
    if n = name then cons name entry rest
    else if name < n then cons name entry (.file n content rest)
    else .file n content (rest.set name entry)
  | .folder n entries rest =>
    if n = name then cons name entry rest
    else if name < n then cons name entry (.folder n entries rest)
    else .folder n entries (rest.set name entry)

def erase (name : String) : Directory → Directory
  | .empty => .empty
  | .file n content rest => if n = name then rest else .file n content (rest.erase name)
  | .folder n entries rest => if n = name then rest else .folder n entries (rest.erase name)

end Directory

-- ---------------------------------------------------------------------------
-- Places
-- ---------------------------------------------------------------------------

def Entry.find? : Entry → Place → Option Entry
  | e, [] => some e
  | .file _, _ :: _ => none
  | .folder d, name :: place => (d.get? name).bind (find? · place)

namespace Directory

def find? (d : Directory) (place : Place) : Option Entry := (Entry.folder d).find? place

def hasFolder (d : Directory) (place : Place) : Bool :=
  match d.find? place with
  | some (.folder _) => true
  | _ => false

/-- Puts an entry at a place inside an existing folder. -/
def put (entry : Entry) (d : Directory) : Place → Directory
  | [] => d
  | [name] => d.set name entry
  | name :: place => match d.get? name with
    | some (.folder sub) => d.set name (.folder (put entry sub place))
    | _ => d

def remove (d : Directory) : Place → Directory
  | [] => d
  | [name] => d.erase name
  | name :: place => match d.get? name with
    | some (.folder sub) => d.set name (.folder (sub.remove place))
    | _ => d

-- ---------------------------------------------------------------------------
-- Walking
-- ---------------------------------------------------------------------------

def filesWhere (shown : String → Bool) : Directory → List (Place × ByteArray)
  | .empty => []
  | .file name content rest =>
    (if shown name then [([name], content)] else []) ++ rest.filesWhere shown
  | .folder name entries rest =>
    (if shown name then (entries.filesWhere shown).map fun (place, content) =>
      (name :: place, content) else []) ++ rest.filesWhere shown

/-- The places of the folders all of whose names are shown, each before those in it. -/
def foldersWhere (shown : String → Bool) : Directory → List Place
  | .empty => []
  | .file _ _ rest => rest.foldersWhere shown
  | .folder name entries rest =>
    (if shown name then [name] :: (entries.foldersWhere shown).map (name :: ·) else [])
      ++ rest.foldersWhere shown

def files (d : Directory) : List (Place × ByteArray) := d.filesWhere fun _ => true

def written (before after : Directory) : List (Place × ByteArray) :=
  after.files.filter fun (place, content) => !(before.find? place).any (·.isFileOf content)

def removed (before after : Directory) : List Place :=
  (before.files.map Prod.fst).filter fun place =>
    match after.find? place with
    | some (.file _) => false
    | _ => true

-- ---------------------------------------------------------------------------
-- Small laws
-- ---------------------------------------------------------------------------

@[simp] theorem get?_cons (name other : String) (e : Entry) (d : Directory) :
    (cons name e d).get? other = if name = other then some e else d.get? other := by
  cases e <;> simp [cons, get?]

@[simp] theorem get?_set (name other : String) (e : Entry) (d : Directory) :
    (d.set name e).get? other = if name = other then some e else d.get? other := by
  induction d with
  | empty => simp [set, get?]
  | file n c rest ih => grind [set, get?, get?_cons]
  | folder n es rest _ ih => grind [set, get?, get?_cons]

end Directory

end SceneDiagram
