import SceneDiagram.Data
import SceneDiagram.Path
import SceneDiagram.Text.Uppercase

/-!
# Declared types

The classes and interfaces behind scenes, as the project's manifest lists them.
-/

namespace SceneDiagram

open Text

inductive DeclarationKind
  | classType
  | record
  | struct
  | interface
  deriving DecidableEq, Repr

namespace DeclarationKind

def isClassLike : DeclarationKind → Bool
  | .classType | .record | .struct => true
  | .interface => false

def text : DeclarationKind → String
  | .classType => "class"
  | .record => "record"
  | .struct => "struct"
  | .interface => "interface"

def ofText? (s : String) : Option DeclarationKind :=
  [.classType, .record, .struct, .interface].find? (·.text == s)

end DeclarationKind

inductive MemberKind
  | property
  | method
  deriving DecidableEq, Repr

namespace MemberKind

def text : MemberKind → String
  | .property => "property"
  | .method => "method"

def ofText? (s : String) : Option MemberKind := [.property, .method].find? (·.text == s)

end MemberKind

structure Member where
  kind : MemberKind
  name : String
  typeName : String := ""
  /-- The line of the source file, counted from one. -/
  line : Option Nat := none
  attributes : List String := []
  deriving DecidableEq, Repr

namespace Member

def property (name typeName : String) : Member :=
  { kind := .property, name := name, typeName := typeName }

def method (name : String) : Member := { kind := .method, name := name }

/-- The type of the value that the member holds: the type as written, without
the `?` behind it that allows for none. -/
def valueType (m : Member) : String := (stripTail? "?" m.typeName).getD m.typeName

/-- Does the member carry the attribute, written bare or with `Attribute` behind? -/
def hasAttribute (m : Member) (name : String) : Bool :=
  m.attributes.any fun a => a == name || stripTail? "Attribute" a == some name

end Member

/-- The mark by which a type asks for a diagram of its own. -/
structure Marker where
  useAbsoluteIdeLinks : Bool := false
  deriving DecidableEq, Repr

structure Declaration where
  name : String
  kind : DeclarationKind
  file : Path
  members : List Member := []
  marker : Option Marker := none
  deriving DecidableEq, Repr

namespace Declaration

def membersOf (d : Declaration) (kind : MemberKind) : List Member :=
  d.members.filter (·.kind == kind)

def properties (d : Declaration) : List Member := d.membersOf .property

def methods (d : Declaration) : List Member := d.membersOf .method

def find? (d : Declaration) (kind : MemberKind) (name : String) : Option Member :=
  (d.membersOf kind).find? (·.name == name)

end Declaration

-- ---------------------------------------------------------------------------
-- The interface convention
-- ---------------------------------------------------------------------------

def interfaceName (mark className : String) : String := mark ++ className

/-- The type that an interface stands for by its name: the rest behind the mark
of interfaces, if that begins with a capital. -/
def implementedType? (mark typeName : String) : Option String :=
  if mark = "" then none
  else (stripLead? mark typeName).filter fun rest => rest.toList.head?.any isUppercase

-- ---------------------------------------------------------------------------
-- Reading
-- ---------------------------------------------------------------------------

def lineNumber? : Data → Option Nat
  | .integer n => if 0 ≤ n ∧ n < 0x100000000 then some n.toNat else none
  | _ => none

def Member.ofData? (isNothing : Data → Bool) (d : Data) : Option Member := do
  let es ← d.record? ["kind", "name", "type", "line", "attributes"]
  return {
    kind := ← Entries.required? es "kind" fun d => (d.choice? isNothing).bind MemberKind.ofText?
    name := ← Entries.required? es "name" Data.text?
    typeName := ← Entries.orElse? es "type" "" Data.text?
    line := ← Entries.optional? es "line" lineNumber?
    attributes := ← Entries.orElse? es "attributes" [] (Data.listOf? Data.text?) }

def Marker.ofData? (d : Data) : Option Marker := do
  let es ← d.record? ["use_absolute_ide_links"]
  return { useAbsoluteIdeLinks := ← Entries.orElse? es "use_absolute_ide_links" false Data.flag? }

/-- The declaration that a record holds, by what its notation writes for nothing. -/
def Declaration.ofData? (isNothing : Data → Bool) (d : Data) : Option Declaration := do
  let es ← d.record? ["name", "kind", "file", "members", "diagram"]
  return {
    name := ← Entries.required? es "name" Data.text?
    kind := ← Entries.required? es "kind" fun d =>
      (d.choice? isNothing).bind DeclarationKind.ofText?
    file := ← Entries.required? es "file" fun d => d.text?.map Path.mk
    members := ← Entries.orElse? es "members" [] (Data.listOf? (Member.ofData? isNothing))
    marker := ← Entries.optional? es "diagram" Marker.ofData? }

end SceneDiagram
