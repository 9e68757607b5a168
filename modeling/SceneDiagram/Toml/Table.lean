import SceneDiagram.Data

/-!
# Tables under construction

Each key of a document is defined once. How a table came to be decides what may
still be added: a table that a header names stays closed to dotted keys from
elsewhere, and one that dotted keys lead through is named by no header.
-/

namespace SceneDiagram.Toml

/-- A dotted key: the tables it leads through and the name in the last. -/
structure Key where
  path : List String
  name : String
  deriving DecidableEq, Repr

inductive Origin
  /-- A header names it. -/
  | header
  /-- A header names a table inside it. -/
  | implied
  /-- A dotted key leads through it. -/
  | dotted
  deriving DecidableEq, Repr

/-- The entries of a table. A series of tables is open at its last one. -/
inductive Table
  | empty
  | value (name : String) (data : Data) (rest : Table)
  | table (name : String) (origin : Origin) (entries rest : Table)
  | series (name : String) (earlier : List Data) (last rest : Table)

inductive Slot
  | free
  | value (data : Data)
  | table (origin : Origin) (entries : Table)
  | series (earlier : List Data) (last : Table)

def Slot.cons (name : String) : Slot → Table → Table
  | .free, rest => rest
  | .value data, rest => .value name data rest
  | .table origin entries, rest => .table name origin entries rest
  | .series earlier last, rest => .series name earlier last rest

namespace Table

def entries : Table → Entries
  | .empty => []
  | .value name data rest => (name, data) :: rest.entries
  | .table name _ sub rest => (name, .table sub.entries) :: rest.entries
  | .series name earlier last rest =>
    (name, .list (earlier ++ [.table last.entries])) :: rest.entries

def change? (name : String) (f : Slot → Option Slot) : Table → Option Table
  | .empty => (f .free).map (·.cons name .empty)
  | .value n data rest =>
    if n = name then (f (.value data)).map (·.cons n rest)
    else (rest.change? name f).map (.value n data)
  | .table n origin sub rest =>
    if n = name then (f (.table origin sub)).map (·.cons n rest)
    else (rest.change? name f).map (.table n origin sub)
  | .series n earlier last rest =>
    if n = name then (f (.series earlier last)).map (·.cons n rest)
    else (rest.change? name f).map (.series n earlier last)

/-- Changes the table at the end of a path, and makes those tables on the way
that are missing. Dotted keys do not enter a table that a header names, and make
an implied one their own. -/
def changeAt? (t : Table) (dotted : Bool) (origin : Origin) :
    List String → (Origin → Table → Option Table) → Option Table
  | [], f => f origin t
  | name :: path, f => t.change? name fun
    | .free =>
      let made := if dotted then .dotted else .implied
      (changeAt? .empty dotted made path f).map (.table made)
    | .value _ => none
    | .table origin sub =>
      if dotted ∧ origin = .header then none
      else
        let kept := if dotted then .dotted else origin
        (sub.changeAt? dotted kept path f).map (.table kept)
    | .series earlier last => (last.changeAt? dotted .header path f).map (.series earlier)

/-- Defines a key. The table that holds the name is the one at hand, or one
that dotted keys lead through. -/
def define? (t : Table) (key : Key) (data : Data) : Option Table :=
  t.changeAt? true .header key.path fun origin t =>
    if (origin = .dotted) = key.path.isEmpty then none
    else t.change? key.name fun
      | .free => some (.value data)
      | _ => none

def openTable? (t : Table) (key : Key) : Option Table :=
  t.changeAt? false .header key.path fun _ t =>
    t.change? key.name fun
      | .free => some (.table .header .empty)
      | .table .implied sub => some (.table .header sub)
      | _ => none

def openNext? (t : Table) (key : Key) : Option Table :=
  t.changeAt? false .header key.path fun _ t =>
    t.change? key.name fun
      | .free => some (.series [] .empty)
      | .series earlier last => some (.series (earlier ++ [.table last.entries]) .empty)
      | _ => none

def ofPairs? (pairs : List (Key × Data)) : Option Table :=
  pairs.foldlM (fun t (key, data) => t.define? key data) .empty

end Table

end SceneDiagram.Toml
