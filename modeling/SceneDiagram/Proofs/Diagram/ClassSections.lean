import Mathlib.Data.List.Nodup
import SceneDiagram.Diagram
import SceneDiagram.Proofs.Hierarchy.Wiring
import SceneDiagram.Proofs.Text.ByteOrder

/-!
# The sections of a class

`classBlock_lists`: the lines of a class are those of the members that its interface
declares too, in the order of their names, and of the children that none of these
lines links to. So a child is linked at least once, and if the properties have names of
their own exactly once, since a line links to the first child with its label and a child
has one label.
-/

namespace SceneDiagram.Drawing

open Hierarchy
open Text (bytes)

variable {w : Drawing} {n : Node} {kind : MemberKind} {cls iface : Declaration}

-- ---------------------------------------------------------------------------
-- Shared members
-- ---------------------------------------------------------------------------

def declaredIn (kind : MemberKind) (cls iface : Declaration) : List Member :=
  cls.members.filter fun m =>
    m.kind = kind ∧ ∃ d ∈ iface.members, d.kind = kind ∧ d.name = m.name

/-- These are the members of a kind that class and interface share, by the bytes of
their names and otherwise as they are declared. -/
structure Shares (kind : MemberKind) (cls iface : Declaration) (ms : List Member) : Prop where
  perm : ms.Perm (declaredIn kind cls iface)
  sorted : ms.Pairwise fun a b => ¬ bytes b.name < bytes a.name
  ties : ∀ name, ms.filter (·.name = name) =
    (declaredIn kind cls iface).filter (·.name = name)

def byName (a b : Member) : Bool := !decide (b.name < a.name)

theorem byName_iff {a b : Member} : byName a b ↔ a.name ≤ b.name := by
  rw [byName, Bool.not_eq_true', decide_eq_false_iff_not, String.not_lt]

theorem byName_trans (a b c : Member) (hab : byName a b) (hbc : byName b c) : byName a c :=
  byName_iff.mpr (String.le_trans (byName_iff.mp hab) (byName_iff.mp hbc))

theorem byName_total (a b : Member) : byName a b || byName b a := by
  rw [Bool.or_eq_true, byName_iff, byName_iff]
  exact String.le_total _ _

/-- Sorting by name keeps the members of one name in their order. -/
theorem filter_mergeSort (ms : List Member) (name : String) :
    (ms.mergeSort byName).filter (·.name = name) = ms.filter (·.name = name) := by
  have hties : (ms.filter (·.name = name)).Pairwise (byName · ·) := by
    refine List.pairwise_of_forall_mem_list fun a ha b hb => ?_
    have hname : a.name = b.name := by
      rw [of_decide_eq_true (List.mem_filter.mp ha).2, of_decide_eq_true (List.mem_filter.mp hb).2]
    exact byName_iff.mpr (hname ▸ String.le_refl a.name)
  have hkept := (List.sublist_mergeSort byName_trans byName_total hties
    List.filter_sublist).filter (·.name = name)
  rw [List.filter_filter] at hkept
  simp only [Bool.and_self] at hkept
  exact (hkept.eq_of_length ((List.mergeSort_perm ms byName).filter _).length_eq.symm).symm

theorem isSome_find? : (iface.find? kind name).isSome ↔
    ∃ d ∈ iface.members, d.kind = kind ∧ d.name = name := by
  simp [Declaration.find?, Declaration.membersOf]

theorem shared_eq : shared kind cls iface = (declaredIn kind cls iface).mergeSort byName := by
  have hfilter : (cls.membersOf kind).filter (fun m => (iface.find? kind m.name).isSome) =
      declaredIn kind cls iface := by
    rw [Declaration.membersOf, List.filter_filter, declaredIn]
    refine List.filter_congr fun m _ => ?_
    rw [Bool.eq_iff_iff]
    simp only [Bool.and_eq_true, isSome_find?, beq_iff_eq, decide_eq_true_eq]
    exact and_comm
  rw [← hfilter]
  rfl

theorem mem_shared : m ∈ shared kind cls iface ↔
    m ∈ cls.members ∧ m.kind = kind ∧ ∃ d ∈ iface.members, d.kind = kind ∧ d.name = m.name := by
  simp [shared_eq, declaredIn]

theorem shares_shared : Shares kind cls iface (shared kind cls iface) where
  perm := by
    rw [shared_eq]
    exact List.mergeSort_perm _ _
  sorted := by
    rw [shared_eq]
    refine (List.pairwise_mergeSort byName_trans byName_total _).imp fun hle hlt => ?_
    exact String.not_lt.mpr (byName_iff.mp hle) (Text.lt_iff_bytes_lt.mpr hlt)
  ties name := by rw [shared_eq, filter_mergeSort]

-- ---------------------------------------------------------------------------
-- Lines
-- ---------------------------------------------------------------------------

def linkTo? (w : Drawing) (child : String) : Option Link :=
  (w.graph.find? child).map w.childLink

def lineAbove (w : Drawing) (n : Node) (entry : Member × Option String) : MemberLine :=
  { isPublic := true
    content := (w.memberLink n entry.1 "").text
    child := entry.2.bind w.linkTo? }

def lineBelow (w : Drawing) (n : Node) (entry : String × Edge) : MemberLine :=
  { isPublic := false
    content := w.externalText n entry.1 entry.2
    child := w.linkTo? entry.1 }

/-- What the lines of a class are of: `above` the shared properties, each with the child
that its line links to, then the shared methods, and `below` the other children. -/
structure Lists (w : Drawing) (n : Node) (above : List (Member × Option String))
    (methods : List Member) (below : List (String × Edge)) : Prop where
  sections : (w.classBlock n).sections =
    (if n.backing?.isSome ∧ n.interface?.isSome then
      [above.map (w.lineAbove n), methods.map (w.methodLine n)] else []) ++
      [below.map (w.lineBelow n)]
  shares : ∀ cls iface, n.backing? = some cls → n.interface? = some iface →
    Shares .property cls iface (above.map (·.1)) ∧ Shares .method cls iface methods
  hidden : ¬ (n.backing?.isSome ∧ n.interface?.isSome) → above = [] ∧ methods = []
  claims : ∀ p child, (p, child) ∈ above → child = (n.children.find? fun (child, edge) =>
    w.memberLabel? n child edge == some p.name).map (·.1)
  rest : below = n.children.filter (·.1 ∉ above.filterMap (·.2))
  registered : ∀ child edge, (child, edge) ∈ n.children →
    ∃ m ∈ w.graph.nodes, m.name = child ∧ w.linkTo? child = some (w.childLink m)
  once : n.children.map (·.1) ⊆ above.filterMap (·.2) ++ below.map (·.1)
  exactly : (n.properties.map (·.name)).Nodup → (n.children.map (·.1)).Nodup ∧
    (above.filterMap (·.2) ++ below.map (·.1)).Perm (n.children.map (·.1))

def sharedOf (kind : MemberKind) (n : Node) : List Member :=
  ((n.backing?.bind fun cls => n.interface?.map (shared kind cls))).getD []

def above (w : Drawing) (n : Node) : List (Member × Option String) :=
  (sharedOf .property n).map fun p => (p, (w.heldBy? n p.name).map (·.1))

def below (w : Drawing) (n : Node) : List (String × Edge) :=
  n.children.filter (·.1 ∉ w.linked n (sharedOf .property n))

theorem sharedOf_eq (hcls : n.backing? = some cls) (hiface : n.interface? = some iface) :
    sharedOf kind n = shared kind cls iface := by
  simp [sharedOf, hcls, hiface]

theorem sharedOf_eq_nil (h : ¬ (n.backing?.isSome ∧ n.interface?.isSome)) :
    sharedOf kind n = [] := by
  cases hcls : n.backing? with
  | none => simp [sharedOf, hcls]
  | some cls =>
    cases hiface : n.interface? with
    | none => simp [sharedOf, hcls, hiface]
    | some iface => simp [hcls, hiface] at h

theorem mem_sharedOf (h : m ∈ sharedOf kind n) :
    ∃ cls, n.backing? = some cls ∧ m ∈ cls.members ∧ m.kind = kind := by
  by_cases hboth : n.backing?.isSome ∧ n.interface?.isSome
  · obtain ⟨cls, hcls⟩ := Option.isSome_iff_exists.mp hboth.1
    obtain ⟨iface, hiface⟩ := Option.isSome_iff_exists.mp hboth.2
    rw [sharedOf_eq hcls hiface] at h
    exact ⟨cls, hcls, (mem_shared.mp h).1, (mem_shared.mp h).2.1⟩
  · rw [sharedOf_eq_nil hboth] at h
    cases h

theorem filterMap_above : (w.above n).filterMap (·.2) = w.linked n (sharedOf .property n) := by
  rw [above, List.filterMap_map]
  rfl

theorem lineAbove_above : (w.above n).map (w.lineAbove n) =
    (sharedOf .property n).map (w.propertyLine n) := by
  rw [above, List.map_map]
  refine List.map_congr_left fun p _ => ?_
  cases hheld : w.heldBy? n p.name <;> simp [lineAbove, propertyLine, linkTo?, hheld]

theorem externalLines_eq (h : ∀ child edge, (child, edge) ∈ n.children →
    ∃ m ∈ w.graph.nodes, m.name = child ∧ w.linkTo? child = some (w.childLink m)) :
    w.externalLines n (sharedOf .property n) = (w.below n).map (w.lineBelow n) := by
  rw [externalLines, ← List.filterMap_eq_map]
  refine List.filterMap_congr fun ⟨child, edge⟩ hc => ?_
  obtain ⟨m, -, -, hm⟩ := h child edge (List.mem_filter.mp hc).1
  obtain ⟨m', hfind, hlink⟩ := Option.map_eq_some_iff.mp hm
  simp [lineBelow, hm, hfind, hlink]

theorem sections_classBlock (w : Drawing) (n : Node) : (w.classBlock n).sections =
    (if n.backing?.isSome ∧ n.interface?.isSome then
      [(sharedOf .property n).map (w.propertyLine n),
        (sharedOf .method n).map (w.methodLine n)] else []) ++
      [w.externalLines n (sharedOf .property n)] := by
  cases hcls : n.backing? with
  | none => simp [classBlock, sharedOf, hcls]
  | some cls =>
    cases hiface : n.interface? with
    | none => simp [classBlock, sharedOf, hcls, hiface]
    | some iface => simp [classBlock, sharedOf, hcls, hiface]

theorem mem_sections (hlines : lines ∈ (w.classBlock n).sections) (hm : m ∈ lines) :
    (∃ p ∈ sharedOf .property n, m = w.propertyLine n p) ∨
      (∃ p ∈ sharedOf .method n, m = w.methodLine n p) ∨
        m ∈ w.externalLines n (sharedOf .property n) := by
  rw [sections_classBlock, List.mem_append, List.mem_singleton] at hlines
  rcases hlines with hshown | rfl
  · split at hshown
    · simp only [List.mem_cons, List.not_mem_nil, or_false] at hshown
      rcases hshown with rfl | rfl
      · exact .inl ((List.mem_map.mp hm).imp fun p ⟨hp, heq⟩ => ⟨hp, heq.symm⟩)
      · exact .inr (.inl ((List.mem_map.mp hm).imp fun p ⟨hp, heq⟩ => ⟨hp, heq.symm⟩))
    · cases hshown
  · exact .inr (.inr hm)

-- ---------------------------------------------------------------------------
-- Every child once
-- ---------------------------------------------------------------------------

theorem mem_of_heldBy? (h : w.heldBy? n property = some entry) :
    entry ∈ n.children ∧ w.memberLabel? n entry.1 entry.2 = some property :=
  ⟨List.mem_of_find?_eq_some h, eq_of_beq (List.find?_some h :)⟩

theorem linked_subset (properties : List Member) :
    w.linked n properties ⊆ n.children.map (·.1) := by
  intro child hchild
  obtain ⟨p, -, hp⟩ := List.mem_filterMap.mp hchild
  obtain ⟨entry, hentry, rfl⟩ := Option.map_eq_some_iff.mp hp
  exact List.mem_map_of_mem (mem_of_heldBy? hentry).1

/-- A child has one edge and so one label: no two properties of different names link to
it. -/
theorem nodup_linked (hchildren : (n.children.map (·.1)).Nodup) {properties : List Member}
    (h : (properties.map (·.name)).Nodup) : (w.linked n properties).Nodup := by
  refine List.Pairwise.filterMap _ (fun p q hne child hp other hq heq => ?_)
    (List.pairwise_map.mp h)
  obtain ⟨entry, hheld, rfl⟩ := Option.map_eq_some_iff.mp hp
  obtain ⟨entry', hheld', rfl⟩ := Option.map_eq_some_iff.mp hq
  obtain ⟨hmem, hlabel⟩ := mem_of_heldBy? hheld
  obtain ⟨hmem', hlabel'⟩ := mem_of_heldBy? hheld'
  obtain rfl : entry = entry' := List.inj_on_of_nodup_map hchildren hmem hmem' heq
  exact hne (Option.some.inj (hlabel.symm.trans hlabel'))

theorem nodup_sharedOf (h : (n.properties.map (·.name)).Nodup) :
    ((sharedOf .property n).map (·.name)).Nodup := by
  by_cases hboth : n.backing?.isSome ∧ n.interface?.isSome
  · obtain ⟨cls, hcls⟩ := Option.isSome_iff_exists.mp hboth.1
    obtain ⟨iface, hiface⟩ := Option.isSome_iff_exists.mp hboth.2
    have hproperties : n.properties = cls.properties := by
      rw [Node.properties, hcls, Option.map_some, Option.getD_some]
    rw [hproperties] at h
    rw [sharedOf_eq hcls hiface, shared, ((List.mergeSort_perm _ _).map _).nodup_iff]
    exact h.sublist (List.filter_sublist.map _)
  · rw [sharedOf_eq_nil hboth]
    exact List.nodup_nil

theorem perm_children (hchildren : (n.children.map (·.1)).Nodup)
    (h : (w.linked n properties).Nodup) :
    (w.linked n properties ++
      (n.children.filter (·.1 ∉ w.linked n properties)).map (·.1)).Perm
      (n.children.map (·.1)) := by
  have hrest : (n.children.filter (·.1 ∉ w.linked n properties)).map (·.1) =
      (n.children.map (·.1)).filter (· ∉ w.linked n properties) := by
    rw [List.filter_map, Function.comp_def]
  rw [hrest]
  refine (List.perm_ext_iff_of_nodup ?_ hchildren).mpr fun child => ?_
  · refine List.nodup_append.mpr ⟨h, hchildren.filter _, fun a ha b hb heq => ?_⟩
    exact of_decide_eq_true (List.mem_filter.mp hb).2 (heq ▸ ha)
  · rw [List.mem_append, List.mem_filter, decide_eq_true_iff]
    constructor
    · rintro (hlinked | ⟨hchild, -⟩)
      · exact linked_subset properties hlinked
      · exact hchild
    · intro hchild
      by_cases hlinked : child ∈ w.linked n properties
      · exact .inl hlinked
      · exact .inr ⟨hchild, hlinked⟩

theorem lists_above_below (hchildren : (n.children.map (·.1)).Nodup)
    (hregistered : ∀ child edge, (child, edge) ∈ n.children →
      ∃ m ∈ w.graph.nodes, m.name = child ∧ w.linkTo? child = some (w.childLink m)) :
    w.Lists n (w.above n) (sharedOf .method n) (w.below n) where
  sections := by
    rw [sections_classBlock, lineAbove_above, externalLines_eq hregistered]
  shares cls iface hcls hiface := by
    have hproperties : (w.above n).map (·.1) = sharedOf .property n := by
      rw [above, List.map_map]
      exact List.map_id _
    rw [hproperties, sharedOf_eq hcls hiface, sharedOf_eq hcls hiface]
    exact ⟨shares_shared, shares_shared⟩
  hidden hnone := by
    rw [above, sharedOf_eq_nil hnone, sharedOf_eq_nil hnone]
    exact ⟨rfl, rfl⟩
  claims p child hentry := by
    obtain ⟨q, -, heq⟩ := List.mem_map.mp hentry
    obtain ⟨rfl, rfl⟩ := Prod.mk.inj heq
    rfl
  rest := by rw [filterMap_above, below]
  registered := hregistered
  once child hchild := by
    rw [filterMap_above, List.mem_append]
    by_cases hlinked : child ∈ w.linked n (sharedOf .property n)
    · exact .inl hlinked
    · obtain ⟨entry, hentry, rfl⟩ := List.mem_map.mp hchild
      exact .inr (List.mem_map_of_mem (List.mem_filter.mpr ⟨hentry, by simpa using hlinked⟩))
  exactly hnames := by
    rw [filterMap_above]
    exact ⟨hchildren, perm_children hchildren (nodup_linked hchildren (nodup_sharedOf hnames))⟩

/-- The class of every node of a wired graph lists the members that its interface shows
and every child, whatever the labels of the children are. -/
theorem classBlock_lists {r : Registry} (h : r.Built) (mark : String)
    (analysis : AnalysisConfig) (style : LinkStyle) (interfacePrefix : String) :
    let w : Drawing := ⟨(r.graph mark).wire analysis, style, interfacePrefix⟩
    ∀ n ∈ w.graph.nodes, ∃ above methods below, w.Lists n above methods below := by
  intro w n hn
  have hu := h.unwired_graph mark
  refine ⟨_, _, _, lists_above_below (Graph.wiredAt_wire hu hn).nodup fun child edge hc => ?_⟩
  obtain ⟨-, hhas, -⟩ := (Graph.mem_children_wire hu hn).mp hc
  obtain ⟨m, hm⟩ := Option.isSome_iff_exists.mp hhas
  exact ⟨m, List.mem_of_find?_eq_some hm, eq_of_beq (List.find?_some hm :), by
    rw [linkTo?, hm, Option.map_some]⟩

/-- A world whose interface shows one property. The player in its scene and the
interface of players both go by that property. -/
def shownRegistry : Registry :=
  let world : Scene := { root := some { name := "World", typeName := "Node3D", children := [
    { name := "Player", typeName := "Node3D" }] } }
  let player : Scene := { root := some { name := "Player", typeName := "Node3D" } }
  let scenes := (Registry.addScene { dir := ⟨"/game"⟩ } ⟨"World/World.tscn"⟩ world).addScene
    ⟨"Player/Player.tscn"⟩ player
  scenes.addDeclarations [
    { name := "World", kind := .classType, file := ⟨"World/World.cs"⟩
      members := [.property "Place" "Zone", .property "Hero" "IPlayer", .method "Stop",
        .method "Run"] },
    { name := "IWorld", kind := .interface, file := ⟨"World/World.cs"⟩
      members := [.property "Hero" "IPlayer", .method "Run", .method "Stop"] },
    { name := "IPlayer", kind := .interface, file := ⟨"Player/IPlayer.cs"⟩ },
    { name := "Zone", kind := .classType, file := ⟨"World/Zone.cs"⟩ }]

theorem classBlock_lists_shown :
    let w : Drawing := ⟨(shownRegistry.graph "I").wire {}, .absolute "vscode", "I"⟩
    ∃ n ∈ w.graph.nodes, n.children.map (·.1) = ["Player", "Zone", "IPlayer"] ∧
      ∃ above methods below, w.Lists n above methods below ∧
        (w.classBlock n).sections = [above.map (w.lineAbove n), methods.map (w.methodLine n),
          below.map (w.lineBelow n)] ∧
        (above.filterMap (·.2) ++ below.map (·.1)).Perm ["Player", "Zone", "IPlayer"] := by
  intro w
  have hworld : (w.graph.find? "World").map (fun n => (n.children.map (·.1),
      n.properties.map (·.name), n.backing?.isSome, n.interface?.isSome)) =
      some (["Player", "Zone", "IPlayer"], ["Place", "Hero"], true, true) := by decide +kernel
  obtain ⟨n, hfind, hfacts⟩ := Option.map_eq_some_iff.mp hworld
  simp only [Prod.mk.injEq] at hfacts
  obtain ⟨hchildren, hproperties, hboth⟩ := hfacts
  have hn : n ∈ w.graph.nodes := List.mem_of_find?_eq_some hfind
  have hbuilt : shownRegistry.Built :=
    (((Registry.Built.empty _).addScene _ _).addScene _ _).addDeclarations _
  obtain ⟨above, methods, below, hlists⟩ :=
    classBlock_lists hbuilt "I" {} (.absolute "vscode") "I" n hn
  have hsections := hlists.sections
  rw [if_pos hboth] at hsections
  have honce := (hlists.exactly (by rw [hproperties]; decide)).2
  rw [hchildren] at honce
  exact ⟨n, hn, hchildren, above, methods, below, hlists, hsections, honce⟩

end SceneDiagram.Drawing
