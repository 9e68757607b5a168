import SceneDiagram.Diagram
import SceneDiagram.Proofs.Hierarchy.Reordering

/-!
# Drawings of reordered graphs

`Diagram.ofRoot_reordered`: the document of a root is the same in every order of the
nodes. A drawing looks nodes up by their names, counts them, and reads all of a node
but its parents.
-/

namespace SceneDiagram

open Hierarchy

namespace Drawing

variable {w w' : Drawing}

/-- Two drawings that differ in the order of nodes only. -/
structure Reorders (w w' : Drawing) : Prop where
  graph : w.graph.Reorders w'.graph
  style : w.style = w'.style
  interfacePrefix : w.interfacePrefix = w'.interfacePrefix

theorem Reorders.find?_map (h : w.Reorders w') {f f' : Node → α}
    (hf : ∀ n, f n = f' n.withoutParents) (hf' : ∀ n, f' n = f' n.withoutParents) (name : String) :
    (w.graph.find? name).map f = (w'.graph.find? name).map f' := by
  have hfind := congrArg (Option.map f') (h.graph.find? name)
  rw [Option.map_map, Option.map_map] at hfind
  rw [funext hf, funext hf']
  exact hfind

theorem Reorders.memberLabel? (h : w.Reorders w') : w.memberLabel? = w'.memberLabel? := by
  funext n child edge
  simp only [Drawing.memberLabel?, namesNode, h.interfacePrefix]

theorem Reorders.heldBy? (h : w.Reorders w') : w.heldBy? = w'.heldBy? := by
  funext n property
  simp only [Drawing.heldBy?, h.memberLabel?]

theorem Reorders.memberLink (h : w.Reorders w') : w.memberLink = w'.memberLink := by
  funext n m behind
  simp only [Drawing.memberLink, h.style]

theorem Reorders.childLink (h : w.Reorders w') (name : String) :
    (w.graph.find? name).map w.childLink = (w'.graph.find? name).map w'.childLink :=
  h.find?_map (fun n => by simp only [Drawing.childLink, h.style]; rfl) (fun _ => rfl) name

theorem Reorders.propertyLine (h : w.Reorders w') : w.propertyLine = w'.propertyLine := by
  funext n p
  simp only [Drawing.propertyLine, h.memberLink, h.heldBy?, Option.map_bind, Function.comp_def,
    h.childLink]

theorem Reorders.methodLine (h : w.Reorders w') : w.methodLine = w'.methodLine := by
  funext n m
  simp only [Drawing.methodLine, h.memberLink]

theorem Reorders.externalText (h : w.Reorders w') : w.externalText = w'.externalText := by
  funext n child edge
  simp only [Drawing.externalText, h.memberLabel?, h.memberLink]

theorem Reorders.externalLines (h : w.Reorders w') : w.externalLines = w'.externalLines := by
  funext n properties
  have hline (content name : String) :
      (w.graph.find? name).map (fun child =>
          ({ isPublic := false, content := content, child := some (w.childLink child) } : MemberLine)) =
        (w'.graph.find? name).map fun child =>
          { isPublic := false, content := content, child := some (w'.childLink child) } := by
    have hlink := congrArg (Option.map fun link =>
      ({ isPublic := false, content := content, child := some link } : MemberLine)) (h.childLink name)
    rwa [Option.map_map, Option.map_map] at hlink
  simp only [Drawing.externalLines, linked, h.heldBy?, h.externalText, hline]
  rfl

theorem Reorders.classBlock (h : w.Reorders w') : w.classBlock = w'.classBlock := by
  funext n
  simp only [Drawing.classBlock, h.style, h.propertyLine, h.methodLine, h.externalLines]

theorem Reorders.relationTo? (h : w.Reorders w') : w.relationTo? = w'.relationTo? := by
  funext n name edge
  simp only [Drawing.relationTo?, h.memberLabel?]
  refine h.find?_map (fun child => ?_) (fun child => ?_) name <;> rfl

theorem Reorders.package (h : w.Reorders w') : w.package = w'.package := by
  funext n drawn
  simp only [Drawing.package, h.style, h.relationTo?]

theorem blocksWithin?_withoutParents (w : Drawing) (depth : Nat) (n : Node) :
    w.blocksWithin? depth n = w.blocksWithin? depth n.withoutParents := by
  cases depth <;> rfl

theorem Reorders.blocksWithin? (h : w.Reorders w') (depth : Nat) :
    w.blocksWithin? depth = w'.blocksWithin? depth := by
  induction depth with
  | zero => rfl
  | succ depth ih =>
    funext n
    have hchildren : (n.children.filterMap fun c => w.graph.find? c.1).map Node.withoutParents =
        (n.children.filterMap fun c => w'.graph.find? c.1).map Node.withoutParents := by
      simp only [List.map_filterMap, h.graph.find?]
    have hdrawn (v : Drawing) (ns : List Node) : ns.mapM (v.blocksWithin? depth) =
        (ns.map Node.withoutParents).mapM (v.blocksWithin? depth) := by
      rw [List.mapM_map]
      simp only [Function.comp_def, ← blocksWithin?_withoutParents]
    simp only [Drawing.blocksWithin?, h.classBlock, h.package]
    rw [hdrawn w, hdrawn w', hchildren, ih]

theorem Reorders.blocks (h : w.Reorders w') (n : Node) :
    w.blocks n = w'.blocks n.withoutParents := by
  rw [Drawing.blocks, Drawing.blocks, h.graph.length_eq, h.blocksWithin?,
    blocksWithin?_withoutParents]

end Drawing

theorem Diagram.ofRoot_reordered {g g' : Graph} (h : g.Reorders g') (config : Config)
    (base : String) (root : Node) :
    Diagram.ofRoot g config base root = Diagram.ofRoot g' config base root.withoutParents := by
  have hdrawing : Drawing.Reorders
      ⟨g, linkStyle config.diagram root base, config.analysis.interfacePrefix⟩
      ⟨g', linkStyle config.diagram root.withoutParents base, config.analysis.interfacePrefix⟩ :=
    ⟨h, rfl, rfl⟩
  simp only [ofRoot, hdrawing.blocks]
  rfl

end SceneDiagram
