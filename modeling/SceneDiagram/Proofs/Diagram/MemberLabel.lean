import Mathlib.Data.List.Nodup
import SceneDiagram.Diagram
import SceneDiagram.Proofs.Hierarchy.Wiring

/-!
# Labels of children

`memberLabel?_wire`: the member that a child is shown at is a property whose type
resolves to the child. A label is looked for child by child, though, while a type
resolves to one node of all: a type that is called like a node may label the node
that it names without the mark of interfaces as well. In no other way do two children
share a property.
-/

namespace SceneDiagram

open Hierarchy

theorem Hierarchy.Graph.resolve?_of_names {g : Graph} (h : g.Names typeName) :
    g.resolve? typeName mark = some typeName :=
  resolve?_eq_some.mpr (.inl ⟨h, rfl⟩)

theorem implementedType?_empty (mark : String) : implementedType? mark "" = none := by
  unfold implementedType?
  split
  · rfl
  · next hmark =>
    obtain ⟨c, cs, hchars⟩ := List.exists_cons_of_ne_nil (mt String.toList_eq_nil_iff.mp hmark)
    simp [Text.stripLead?, hchars, Text.after?]

theorem Hierarchy.Graph.resolve?_empty (g : Graph) (mark : String) : g.resolve? "" mark = none := by
  simp [resolve?, implementedType?_empty]

namespace Drawing

variable {w : Drawing} {n : Node} {child other : String} {edge : Edge} {q : Member}

/-- The type is called like one node and without the mark of interfaces like another. -/
structure NamesTwice (w : Drawing) (typeName child : String) : Prop where
  taken : w.graph.Names typeName
  other : typeName ≠ child
  implemented : implementedType? w.interfacePrefix typeName = some child

/-- What a property stands for that labels a child of a scene: the node that its type
resolves to, else one that the type names as well. A type that is not given names the
node whose name is empty. -/
def Labels (w : Drawing) (q : Member) (child : String) (edge : Edge) : Prop :=
  w.graph.resolve? q.valueType w.interfacePrefix = some child ∨
    edge = .contained ∧ (w.NamesTwice q.valueType child ∨ q.valueType = "" ∧ child = "")

theorem namesNode_iff : w.namesNode typeName child ↔
    typeName = child ∨ implementedType? w.interfacePrefix typeName = some child := by
  simp [namesNode]

theorem namesNode_cases (h : w.namesNode typeName child) (hchild : w.graph.has child) :
    w.graph.ResolvesTo w.interfacePrefix typeName child ∨ w.NamesTwice typeName child ∨
      typeName = "" ∧ child = "" := by
  by_cases hsame : typeName = child
  · subst hsame
    by_cases hempty : typeName = ""
    · exact .inr (.inr ⟨hempty, hempty⟩)
    · exact .inl (.inl ⟨⟨hempty, hchild⟩, rfl⟩)
  · have himplemented := (namesNode_iff.mp h).resolve_left hsame
    by_cases hnames : w.graph.Names typeName
    · exact .inr (.inl ⟨hnames, hsame, himplemented⟩)
    · exact .inl (.inr ⟨hnames, himplemented, hchild⟩)

/-- An edge with a label has it from the property that was wired. One without takes the
first property that names the child. -/
theorem memberLabel?_cases (h : w.memberLabel? n child edge = some p) :
    edge = .member p ∨
      edge = .contained ∧ ∃ q ∈ n.properties, q.name = p ∧ w.namesNode q.valueType child := by
  cases edge with
  | member property =>
    obtain rfl : property = p := by simpa [memberLabel?, Edge.label?] using h
    exact .inl rfl
  | contained =>
    have hfirst : (n.properties.find? fun q => w.namesNode q.valueType child).map (·.name) =
        some p := by simpa [memberLabel?, Edge.label?] using h
    obtain ⟨q, hq, hname⟩ := Option.map_eq_some_iff.mp hfirst
    exact .inr ⟨rfl, q, List.mem_of_find?_eq_some hq, hname, by simpa using List.find?_some hq⟩

theorem exists_labels {g : Graph} {analysis : AnalysisConfig} (hg : Unwired g.nodes)
    (hw : w.graph = g.wire analysis) (hmark : w.interfacePrefix = analysis.interfacePrefix)
    (hn : n ∈ w.graph.nodes) (hc : (child, edge) ∈ n.children)
    (h : w.memberLabel? n child edge = some p) :
    ∃ q ∈ n.properties, q.name = p ∧ w.Labels q child edge := by
  rw [hw] at hn
  obtain ⟨-, hhas, hedge⟩ := (Graph.mem_children_wire hg hn).mp hc
  rcases memberLabel?_cases h with rfl | ⟨rfl, q, hq, hname, hnames⟩
  · rcases hedge with ⟨-, hedge⟩ | ⟨-, q, ⟨before, after, hproperties, hholds, -⟩, hedge⟩
    · cases hedge
    · obtain rfl := Edge.member.inj hedge
      refine ⟨q, by simp [hproperties], rfl, .inl ?_⟩
      rw [hw, hmark, Graph.resolve?_eq_some]
      exact hholds.2
  · rw [← hw] at hhas
    refine ⟨q, hq, hname, (namesNode_cases hnames hhas).imp Graph.resolve?_eq_some.mpr fun h => ?_⟩
    exact ⟨rfl, h⟩

theorem Labels.two {f : Edge} (h : w.Labels q child edge) (h' : w.Labels q other f)
    (hne : child ≠ other) :
    q.valueType = child ∧ w.NamesTwice q.valueType other ∧ f = .contained ∨
      q.valueType = other ∧ w.NamesTwice q.valueType child ∧ edge = .contained := by
  rcases h with hr | ⟨hedge, ht | ⟨hnone, rfl⟩⟩ <;>
    rcases h' with hr' | ⟨hedge', ht' | ⟨hnone', rfl⟩⟩
  · exact absurd (Option.some.inj (hr.symm.trans hr')) hne
  · rw [Graph.resolve?_of_names ht'.taken] at hr
    exact .inl ⟨Option.some.inj hr, ht', hedge'⟩
  · rw [hnone', Graph.resolve?_empty] at hr
    cases hr
  · rw [Graph.resolve?_of_names ht.taken] at hr'
    exact .inr ⟨Option.some.inj hr', ht, hedge⟩
  · exact absurd (Option.some.inj (ht.implemented.symm.trans ht'.implemented)) hne
  · exact absurd hnone' ht.taken.1
  · rw [hnone, Graph.resolve?_empty] at hr'
    cases hr'
  · exact absurd hnone ht'.taken.1
  · exact absurd rfl hne

/-- The member that a child is shown at is a property whose type resolves to the child.
Otherwise the child stands in the scene and the type is also called like another node,
or both have no name. Where the properties have names of their own, only the former
puts two children at one member. -/
theorem memberLabel?_wire {r : Registry} (h : r.Built) (mark : String)
    (analysis : AnalysisConfig) (style : LinkStyle) :
    let w : Drawing := ⟨(r.graph mark).wire analysis, style, analysis.interfacePrefix⟩
    ∀ n ∈ w.graph.nodes,
      (∀ child edge p, (child, edge) ∈ n.children → w.memberLabel? n child edge = some p →
        ∃ q ∈ n.properties, q.name = p ∧ w.Labels q child edge) ∧
      ((n.properties.map (·.name)).Nodup → ∀ child edge other f p,
        (child, edge) ∈ n.children → (other, f) ∈ n.children → child ≠ other →
        w.memberLabel? n child edge = some p → w.memberLabel? n other f = some p →
        ∃ q ∈ n.properties, q.name = p ∧
          (q.valueType = child ∧ w.NamesTwice q.valueType other ∧ f = .contained ∨
            q.valueType = other ∧ w.NamesTwice q.valueType child ∧ edge = .contained)) := by
  intro w n hn
  have hlabels {child edge p} (hc : (child, edge) ∈ n.children)
      (hp : w.memberLabel? n child edge = some p) :
      ∃ q ∈ n.properties, q.name = p ∧ w.Labels q child edge :=
    exists_labels (h.unwired_graph mark) rfl rfl hn hc hp
  refine ⟨fun child edge p => hlabels, fun hnames child edge other f p hc hd hne hp hp' => ?_⟩
  obtain ⟨q, hq, hname, hlabel⟩ := hlabels hc hp
  obtain ⟨q', hq', hname', hlabel'⟩ := hlabels hd hp'
  obtain rfl : q' = q := List.inj_on_of_nodup_map hnames hq' hq (hname'.trans hname.symm)
  exact ⟨q', hq, hname, hlabel.two hlabel' hne⟩

/-- A scene without a name is shown at a property without a type, which names no node. -/
example :
    let nameless : Scene := { root := some { name := "", typeName := "Node" } }
    let world : Scene := { root := some { name := "World", typeName := "Node", children := [
      { name := "", typeName := "Node" }] } }
    let scenes := (Registry.addScene { dir := ⟨"/game"⟩ } ⟨"World.tscn"⟩ world).addScene
      ⟨"Nameless.tscn"⟩ nameless
    let r := scenes.addDeclarations [
      { name := "World", kind := .classType, file := ⟨"World.cs"⟩
        members := [.property "Hero" "?"] }]
    let w : Drawing := ⟨(r.graph "I").wire {}, .absolute "vscode", "I"⟩
    (w.graph.find? "World").map (fun n => (n.children, w.memberLabel? n "" .contained)) =
      some ([("", .contained)], some "Hero") := by
  decide +kernel

/-- A world with a player in its scene and a property for one, typed as an interface
that has a source file of its own. -/
def worldRegistry : Registry :=
  let world : Scene := { root := some { name := "World", typeName := "Node3D", children := [
    { name := "Player", typeName := "Node3D" }] } }
  let player : Scene := { root := some { name := "Player", typeName := "Node3D" } }
  let scenes := (Registry.addScene { dir := ⟨"/game"⟩ } ⟨"World/World.tscn"⟩ world).addScene
    ⟨"Player/Player.tscn"⟩ player
  scenes.addDeclarations [
    { name := "World", kind := .classType, file := ⟨"World/World.cs"⟩
      members := [.property "Hero" "IPlayer"] },
    { name := "IPlayer", kind := .interface, file := ⟨"Player/IPlayer.cs"⟩ }]

theorem built_worldRegistry : worldRegistry.Built :=
  (((Registry.Built.empty _).addScene _ _).addScene _ _).addDeclarations _

def worldDrawing : Drawing := ⟨(worldRegistry.graph "I").wire {}, .absolute "vscode", "I"⟩

theorem exists_world : ∃ n ∈ worldDrawing.graph.nodes,
    n.children = [("Player", .contained), ("IPlayer", .member "Hero")] ∧
    n.properties = [.property "Hero" "IPlayer"] := by
  have hworld : (worldDrawing.graph.find? "World").map (fun n => (n.children, n.properties)) =
      some ([("Player", .contained), ("IPlayer", .member "Hero")],
        [.property "Hero" "IPlayer"]) := by decide +kernel
  obtain ⟨n, hn, hfacts⟩ := Option.map_eq_some_iff.mp hworld
  obtain ⟨hchildren, hproperties⟩ := Prod.mk.inj hfacts
  exact ⟨n, List.mem_of_find?_eq_some hn, hchildren, hproperties⟩

theorem memberLabel?_world (h : n.properties = [.property "Hero" "IPlayer"]) :
    worldDrawing.memberLabel? n "Player" .contained = some "Hero" := by
  rw [memberLabel?, h]
  decide +kernel

theorem memberLabel?_wire_world : ∃ n ∈ worldDrawing.graph.nodes,
    n.children = [("Player", .contained), ("IPlayer", .member "Hero")] ∧
    worldDrawing.memberLabel? n "Player" .contained = some "Hero" ∧
    worldDrawing.memberLabel? n "IPlayer" (.member "Hero") = some "Hero" ∧
    ∃ q ∈ n.properties, q.name = "Hero" ∧
      worldDrawing.graph.resolve? q.valueType "I" = some "IPlayer" ∧
      worldDrawing.NamesTwice q.valueType "Player" := by
  obtain ⟨n, hn, hchildren, hproperties⟩ := exists_world
  have hplayer := memberLabel?_world hproperties
  refine ⟨n, hn, hchildren, hplayer, rfl, ?_⟩
  obtain ⟨hone, htwo⟩ :=
    memberLabel?_wire built_worldRegistry "I" {} (.absolute "vscode") n hn
  have hheld : ("IPlayer", .member "Hero") ∈ n.children := by simp [hchildren]
  obtain ⟨q, hq, hname, hresolves | ⟨hcontained, -⟩⟩ :=
    hone "IPlayer" (.member "Hero") "Hero" hheld rfl
  · obtain ⟨q', hq', -, htypes⟩ := htwo (by simp [hproperties]) "Player" .contained "IPlayer"
      (.member "Hero") "Hero" (by simp [hchildren]) hheld (by decide) hplayer rfl
    obtain rfl : q' = q := by
      rw [hproperties] at hq hq'
      exact (List.mem_singleton.mp hq').trans (List.mem_singleton.mp hq).symm
    rcases htypes with ⟨-, -, hcontained⟩ | ⟨-, htwice, -⟩
    · cases hcontained
    · exact ⟨q', hq, hname, hresolves, htwice⟩
  · cases hcontained

theorem not_memberLabel?_wire : ¬ ∀ (r : Registry) (mark : String) (analysis : AnalysisConfig)
    (style : LinkStyle), r.Built →
    let w : Drawing := ⟨(r.graph mark).wire analysis, style, analysis.interfacePrefix⟩
    ∀ n ∈ w.graph.nodes, ∀ child edge p, (child, edge) ∈ n.children →
      w.memberLabel? n child edge = some p →
      ∃ q ∈ n.properties, q.name = p ∧
        w.graph.resolve? q.valueType analysis.interfacePrefix = some child := by
  intro h
  obtain ⟨n, hn, hchildren, hproperties⟩ := exists_world
  obtain ⟨q, hq, -, hresolves⟩ := h worldRegistry "I" {} (.absolute "vscode") built_worldRegistry
    n hn "Player" .contained "Hero" (by simp [hchildren]) (memberLabel?_world hproperties)
  rw [hproperties, List.mem_singleton] at hq
  subst hq
  have hitself : worldDrawing.graph.resolve? (Member.property "Hero" "IPlayer").valueType "I" =
      some "IPlayer" := by decide +kernel
  exact absurd (Option.some.inj (hresolves.symm.trans hitself)) (by decide)

end Drawing

end SceneDiagram
