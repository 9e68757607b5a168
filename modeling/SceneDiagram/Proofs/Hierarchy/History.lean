import SceneDiagram.Proofs.Basic
import SceneDiagram.Proofs.Hierarchy.Wiring

/-!
# What a node has been through

A node is changed step by step, in any order. `Kept.change` says what each step keeps, and
`consistent_after` what that comes to: the stored positions lie within the declarations and
go on denoting what they were chosen for, and children and parents are those first added.
-/

namespace SceneDiagram.Hierarchy

inductive Change
  | addChild (child : String) (edge : Edge)
  | addParent (parent : String)
  | attach (declarations : List Declaration)
  | settle (interfacePrefix : String)

namespace Change

def edge? : Change → Option (String × Edge)
  | .addChild child edge => some (child, edge)
  | _ => none

def parent? : Change → Option String
  | .addParent parent => some parent
  | _ => none

def declarations : Change → List Declaration
  | .attach ds => ds
  | _ => []

def isSettle : Change → Bool
  | .settle _ => true
  | _ => false

end Change

namespace Node

def change (n : Node) : Change → Node
  | .addChild child edge => (n.addChild child edge).1
  | .addParent parent => (n.addParent parent).1
  | .attach ds => n.attach ds
  | .settle mark => n.settle mark

def after (n : Node) (history : List Change) : Node := history.foldl change n

/-- The nodes that nothing has been done to yet. -/
inductive Fresh : Node → Prop
  | scene (scene : Scene) (source : FileRef) (script : Option FileRef) :
    ofScene? scene source script = some n → Fresh n
  | code (called : String) (source : FileRef) (ds : List Declaration) :
    Fresh (ofDeclarations called source ds)

/-- The class-like declaration called `name` or, without one, the first class-like one. -/
def firstClass? (ds : List Declaration) (name : String) : Option Declaration :=
  (ds.find? fun d => d.kind.isClassLike && d.name == name).or (ds.find? (·.kind.isClassLike))

def firstInterface? (ds : List Declaration) (mark name : String) : Option Declaration :=
  ds.find? fun d => !d.kind.isClassLike && d.name == interfaceName mark name

end Node

-- ---------------------------------------------------------------------------
-- Positions
-- ---------------------------------------------------------------------------

/-- A position, where there is one, is that of a declaration of this kind. -/
def PointsAt (p : Declaration → Prop) (ds : List Declaration) (position : Option Nat) : Prop :=
  ∀ i ∈ position, ∃ h : i < ds.length, p ds[i]

section Positions

variable {p : Declaration → Prop} {q : Declaration → Bool} {ds es : List Declaration}
  {position other : Option Nat}

theorem pointsAt_none : PointsAt p ds none := nofun

theorem pointsAt_findIdx? (hq : ∀ d, q d → p d) : PointsAt p ds (ds.findIdx? q) := by
  intro i hi
  obtain ⟨hlt, hd, -⟩ := List.findIdx?_eq_some_iff_getElem.mp hi
  exact ⟨hlt, hq _ hd⟩

theorem PointsAt.or (h : PointsAt p ds position) (ho : PointsAt p ds other) :
    PointsAt p ds (position.or other) := by
  cases position with
  | none => exact ho
  | some i => exact h

theorem PointsAt.append (h : PointsAt p ds position) (es : List Declaration) :
    PointsAt p (ds ++ es) position := by
  intro i hi
  obtain ⟨hlt, hd⟩ := h i hi
  refine ⟨Nat.lt_of_lt_of_le hlt (List.length_append ▸ Nat.le_add_right _ _), ?_⟩
  rwa [List.getElem_append_left hlt]

/-- Declarations behind the others do not change what a position denotes. -/
theorem PointsAt.bind_append (h : PointsAt p ds position) (es : List Declaration) :
    position.bind ((ds ++ es)[·]?) = position.bind (ds[·]?) := by
  cases position with
  | none => rfl
  | some i =>
    obtain ⟨hlt, -⟩ := h i rfl
    exact List.getElem?_append_left hlt

theorem PointsAt.denotes (h : PointsAt p ds position) : ∀ i ∈ position,
    ∃ hi : i < ds.length, p ds[i] ∧ position.bind (ds[·]?) = some ds[i] := by
  rintro i rfl
  obtain ⟨hlt, hd⟩ := h i rfl
  exact ⟨hlt, hd, List.getElem?_eq_getElem hlt⟩

end Positions

-- ---------------------------------------------------------------------------
-- One change
-- ---------------------------------------------------------------------------

namespace Node

variable {fresh n : Node} {history later : List Change} {c : Change}

/-- What a node is like that was fresh before these changes. -/
structure Kept (fresh : Node) (history : List Change) (n : Node) : Prop where
  name : n.name = fresh.name
  declarations : n.declarations = fresh.declarations ++ history.flatMap (·.declarations)
  backing : PointsAt (·.kind.isClassLike) n.declarations n.backingAt
  interface : PointsAt (·.kind = .interface) n.declarations n.interfaceAt
  children : n.children = firstEdges (history.filterMap (·.edge?))
  parents : n.parents = (history.filterMap (·.parent?)).eraseDups

theorem Fresh.positions (h : fresh.Fresh) : fresh.backingAt = none ∧ fresh.interfaceAt = none := by
  cases h with
  | scene _ _ _ h =>
    obtain ⟨root, -, rfl⟩ := Option.map_eq_some_iff.mp h
    exact ⟨rfl, rfl⟩
  | code => exact ⟨rfl, rfl⟩

theorem Fresh.edges (h : fresh.Fresh) : fresh.children = [] ∧ fresh.parents = [] := by
  cases h with
  | scene _ _ _ h =>
    obtain ⟨root, -, rfl⟩ := Option.map_eq_some_iff.mp h
    exact ⟨rfl, rfl⟩
  | code => exact ⟨rfl, rfl⟩

theorem Fresh.kept (h : fresh.Fresh) : Kept fresh [] fresh where
  name := rfl
  declarations := (List.append_nil _).symm
  backing := h.positions.1 ▸ pointsAt_none
  interface := h.positions.2 ▸ pointsAt_none
  children := h.edges.1
  parents := h.edges.2

theorem filterMap_concat_of_none {f : Change → Option α} (h : f c = none) :
    (history ++ [c]).filterMap f = history.filterMap f := by
  simp [h]

theorem hasChild_iff_mem : n.hasChild child ↔ child ∈ n.children.map (·.1) := by
  simp [hasChild]

theorem Kept.hasChild (h : Kept fresh history n) :
    n.hasChild child ↔ child ∈ (history.filterMap (·.edge?)).map (·.1) := by
  rw [hasChild_iff_mem, h.children, map_fst_firstEdges, List.mem_eraseDups]

theorem Kept.addChild (h : Kept fresh history n) :
    (n.addChild child edge).1.children =
      firstEdges (history.filterMap (·.edge?) ++ [(child, edge)]) := by
  rw [firstEdges_append, ← h.children]
  by_cases hc : n.hasChild child
  · have hmem := h.hasChild.mp hc
    simp [addChild_of_hasChild hc, firstEdges, hmem]
  · have hmem := mt h.hasChild.mpr hc
    rw [children_addChild (Bool.eq_false_iff.mpr hc)]
    simp [firstEdges, hmem]

theorem Kept.addParent (h : Kept fresh history n) :
    (n.addParent parent).1.parents = (history.filterMap (·.parent?) ++ [parent]).eraseDups := by
  rw [eraseDups_append_singleton, ← h.parents, Node.addParent]
  by_cases hp : parent ∈ n.parents
  · have hmem := List.mem_eraseDups.mp (h.parents ▸ hp)
    simp [hp, hmem]
  · have hmem := mt List.mem_eraseDups.mpr (h.parents ▸ hp)
    simp [hp, hmem]

theorem Kept.of_withoutEdges {m : Node} (h : Kept fresh history n)
    (hrest : m.withoutEdges = n.withoutEdges) (hc : c.declarations = [])
    (hchildren : m.children = firstEdges ((history ++ [c]).filterMap (·.edge?)))
    (hparents : m.parents = ((history ++ [c]).filterMap (·.parent?)).eraseDups) :
    Kept fresh (history ++ [c]) m := by
  have hname : m.name = n.name := congrArg (·.name) hrest
  have hdeclarations : m.declarations = n.declarations := congrArg (·.declarations) hrest
  have hbacking : m.backingAt = n.backingAt := congrArg (·.backingAt) hrest
  have hinterface : m.interfaceAt = n.interfaceAt := congrArg (·.interfaceAt) hrest
  refine ⟨hname.trans h.name, ?_, ?_, ?_, hchildren, hparents⟩
  · rw [hdeclarations, h.declarations]
    simp [hc]
  · rw [hdeclarations, hbacking]
    exact h.backing
  · rw [hdeclarations, hinterface]
    exact h.interface

theorem backingAt_settle (n : Node) (mark : String) : (n.settle mark).backingAt =
    (n.declarations.findIdx? fun d => d.kind.isClassLike && d.name == n.name).or
      (n.declarations.findIdx? (·.kind.isClassLike)) := by
  rw [settle, Option.orElse_eq_orElse, Option.orElse_eq_or]

theorem Kept.change (h : Kept fresh history n) (c : Change) :
    Kept fresh (history ++ [c]) (n.change c) := by
  cases c with
  | addChild child edge =>
    refine h.of_withoutEdges (withoutEdges_addChild n child edge) rfl ?_ ?_
    · rw [List.filterMap_append]
      exact h.addChild
    · rw [filterMap_concat_of_none rfl, ← h.parents]
      exact parents_addChild n child edge
  | addParent parent =>
    refine h.of_withoutEdges (withoutEdges_addParent n parent) rfl ?_ ?_
    · rw [filterMap_concat_of_none rfl, ← h.children]
      exact children_addParent n parent
    · rw [List.filterMap_append]
      exact h.addParent
  | attach ds =>
    refine ⟨h.name, ?_, h.backing.append ds, h.interface.append ds, ?_, ?_⟩
    · rw [List.flatMap_append, ← List.append_assoc, ← h.declarations, List.flatMap_singleton]
      rfl
    · rw [filterMap_concat_of_none rfl]
      exact h.children
    · rw [filterMap_concat_of_none rfl]
      exact h.parents
  | settle mark =>
    refine ⟨h.name, ?_, ?_, ?_, ?_, ?_⟩
    · rw [List.flatMap_append, ← List.append_assoc, ← h.declarations, List.flatMap_singleton]
      exact (List.append_nil _).symm
    · rw [Node.change, backingAt_settle]
      exact (pointsAt_findIdx? fun d hd => (Bool.and_eq_true_iff.mp hd).1).or
        (pointsAt_findIdx? fun d hd => hd)
    · refine pointsAt_findIdx? fun d hd => ?_
      cases hkind : d.kind <;> simp [hkind, DeclarationKind.isClassLike] at hd ⊢
    · rw [filterMap_concat_of_none rfl]
      exact h.children
    · rw [filterMap_concat_of_none rfl]
      exact h.parents

theorem Kept.backing?_change (h : Kept fresh history n) (hc : c.isSettle = false) :
    (n.change c).backing? = n.backing? ∧ (n.change c).interface? = n.interface? := by
  cases c with
  | addChild child edge =>
    have hrest := withoutEdges_addChild n child edge
    exact ⟨congrArg (·.backing?) hrest, congrArg (·.interface?) hrest⟩
  | addParent parent =>
    have hrest := withoutEdges_addParent n parent
    exact ⟨congrArg (·.backing?) hrest, congrArg (·.interface?) hrest⟩
  | attach ds => exact ⟨h.backing.bind_append ds, h.interface.bind_append ds⟩
  | settle mark => cases hc

theorem backing?_settle (n : Node) (mark : String) :
    (n.settle mark).backing? = firstClass? n.declarations n.name := by
  rw [backing?, backingAt_settle, firstClass?, List.find?_eq_bind_findIdx?_getElem?,
    List.find?_eq_bind_findIdx?_getElem?]
  cases hnamed : n.declarations.findIdx? fun d => d.kind.isClassLike && d.name == n.name with
  | none => rfl
  | some i =>
    obtain ⟨hlt, -⟩ := List.findIdx?_eq_some_iff_getElem.mp hnamed
    have hposition : n.declarations[i]? = some n.declarations[i] := List.getElem?_eq_getElem hlt
    simp [settle, hposition]

theorem interface?_settle (n : Node) (mark : String) :
    (n.settle mark).interface? = firstInterface? n.declarations mark n.name :=
  List.find?_eq_bind_findIdx?_getElem?.symm

-- ---------------------------------------------------------------------------
-- Histories
-- ---------------------------------------------------------------------------

theorem Kept.after (h : Kept fresh history n) (later : List Change) :
    Kept fresh (history ++ later) (n.after later) := by
  induction later generalizing history n with
  | nil => rwa [List.append_nil]
  | cons c later ih =>
    rw [List.append_cons]
    exact ih (h.change c)

theorem Kept.backing?_after (h : Kept fresh history n) (hlater : ∀ c ∈ later, c.isSettle = false) :
    (n.after later).backing? = n.backing? ∧ (n.after later).interface? = n.interface? := by
  induction later generalizing history n with
  | nil => exact ⟨rfl, rfl⟩
  | cons c later ih =>
    obtain ⟨hc, hlater⟩ := List.forall_mem_cons.mp hlater
    obtain ⟨hbacking, hinterface⟩ := h.backing?_change hc
    obtain ⟨hbacking', hinterface'⟩ := ih (h.change c) hlater
    exact ⟨hbacking'.trans hbacking, hinterface'.trans hinterface⟩

theorem mem_edges : child ∈ (history.filterMap (·.edge?)).map (·.1) ↔
    ∃ edge, .addChild child edge ∈ history := by
  simp only [List.mem_map, List.mem_filterMap]
  constructor
  · rintro ⟨⟨_, edge⟩, ⟨c, hc, hedge⟩, rfl⟩
    cases c <;> cases hedge
    exact ⟨edge, hc⟩
  · rintro ⟨edge, hc⟩
    exact ⟨(child, edge), ⟨_, hc, rfl⟩, rfl⟩

theorem mem_parents : parent ∈ history.filterMap (·.parent?) ↔ .addParent parent ∈ history := by
  rw [List.mem_filterMap]
  constructor
  · rintro ⟨c, hc, hparent⟩
    cases c <;> cases hparent
    exact hc
  · exact fun hc => ⟨_, hc, rfl⟩

/-- What holds of the node that a fresh one has become through a history. -/
structure Consistent (fresh : Node) (history : List Change) (n : Node) : Prop where
  declarations : n.declarations = fresh.declarations ++ history.flatMap (·.declarations)
  /-- The stored positions lie within the declarations, and what they denote is of its kind. -/
  backing : ∀ i ∈ n.backingAt, ∃ h : i < n.declarations.length,
    n.declarations[i].kind.isClassLike ∧ n.backing? = some n.declarations[i]
  interface : ∀ i ∈ n.interfaceAt, ∃ h : i < n.declarations.length,
    n.declarations[i].kind = .interface ∧ n.interface? = some n.declarations[i]
  /-- Without settling there is nothing to denote. -/
  unsettled : (∀ c ∈ history, c.isSettle = false) → n.backing? = none ∧ n.interface? = none
  /-- Settling chooses from the declarations of the moment. -/
  settled : ∀ mark, (n.settle mark).backing? = firstClass? n.declarations fresh.name ∧
    (n.settle mark).interface? = firstInterface? n.declarations mark fresh.name
  /-- What is chosen stays until the next settling, whatever is added. -/
  stays : ∀ later, (∀ c ∈ later, c.isSettle = false) →
    (n.after later).backing? = n.backing? ∧ (n.after later).interface? = n.interface?
  /-- The first edge to a child counts. -/
  edge : ∀ child, n.children.find? (·.1 == child) =
    (history.filterMap (·.edge?)).find? (·.1 == child)
  order : n.children.map (·.1) = ((history.filterMap (·.edge?)).map (·.1)).eraseDups
  parents : n.parents = (history.filterMap (·.parent?)).eraseDups
  /-- Adding tells whether what is added is new. -/
  newChild : ∀ child edge, (n.addChild child edge).2 ↔ ∀ other, .addChild child other ∉ history
  newParent : ∀ parent, (n.addParent parent).2 ↔ .addParent parent ∉ history

theorem snd_addChild (n : Node) (child : String) (edge : Edge) :
    (n.addChild child edge).2 = !n.hasChild child := by
  unfold addChild; split <;> simp_all

theorem snd_addParent : (n.addParent parent).2 ↔ parent ∉ n.parents := by
  unfold addParent; split <;> simp_all

theorem Kept.newChild (h : Kept fresh history n) (child : String) (edge : Edge) :
    (n.addChild child edge).2 ↔ ∀ other, .addChild child other ∉ history := by
  simp [snd_addChild, ← Bool.not_eq_true, h.hasChild, ← not_exists, mem_edges]

theorem Kept.newParent (h : Kept fresh history n) (parent : String) :
    (n.addParent parent).2 ↔ .addParent parent ∉ history := by
  rw [snd_addParent, h.parents, List.mem_eraseDups, mem_parents]

/-- Through whatever history, a node stays consistent. -/
theorem consistent_after (h : fresh.Fresh) (history : List Change) :
    Consistent fresh history (fresh.after history) := by
  have hkept : Kept fresh history (fresh.after history) := h.kept.after history
  refine ⟨hkept.declarations, PointsAt.denotes hkept.backing, PointsAt.denotes hkept.interface,
    fun hunsettled => ?_, fun mark => ?_, fun later => hkept.backing?_after, fun child => ?_, ?_,
    hkept.parents, hkept.newChild, hkept.newParent⟩
  · obtain ⟨hbacking, hinterface⟩ := h.kept.backing?_after hunsettled
    obtain ⟨hnobacking, hnointerface⟩ := h.positions
    rw [hbacking, hinterface, backing?, interface?, hnobacking, hnointerface]
    exact ⟨rfl, rfl⟩
  · rw [backing?_settle, interface?_settle, hkept.name]
    exact ⟨rfl, rfl⟩
  · rw [hkept.children, find?_firstEdges]
  · rw [hkept.children, map_fst_firstEdges]

/-- A node that is settled, told of a better class only then, and settled once more. -/
theorem consistent_after_late :
    let game : Node := .ofDeclarations "Game" ⟨"Game.cs", ⟨"/g/Game.cs"⟩⟩
      [{ name := "Helper", kind := .record, file := ⟨"Game.cs"⟩ }]
    let history : List Change := [.settle "I", .addChild "World" (.member "First"),
      .attach [{ name := "Game", kind := .classType, file := ⟨"Game.cs"⟩ }],
      .addChild "World" .contained]
    game.Fresh ∧ Consistent game history (game.after history) ∧
      (game.after history).backing?.map (·.name) = some "Helper" ∧
      (game.after (history ++ [.settle "I"])).backing?.map (·.name) = some "Game" :=
  ⟨.code _ _ _, consistent_after (.code _ _ _) _, by decide, by decide⟩

end Node
end SceneDiagram.Hierarchy
