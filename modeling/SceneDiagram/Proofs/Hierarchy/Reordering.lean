import Mathlib.Data.List.Nodup
import SceneDiagram.Proofs.Hierarchy.Cycle

/-!
# Graphs in another order

`wire_reorders`: the nodes of a wired graph, with their children, do not depend on the
order in which they were registered. Only the order of parents does, so of these
nothing is kept but whether there are any, and the cycle check gives one answer in
every order (`Reorders.cycle?_eq_none`).
-/

namespace SceneDiagram.Hierarchy

-- ---------------------------------------------------------------------------
-- Looking up in another order
-- ---------------------------------------------------------------------------

theorem find?_eq_of_perm {l l' : List α} {p : α → Bool} (h : l.Perm l')
    (hp : ∀ a ∈ l, ∀ b ∈ l, p a → p b → a = b) : l.find? p = l'.find? p := by
  have key {k k' : List α} (hk : ∀ a ∈ k, ∀ b ∈ k, p a → p b → a = b) (hsub : k' ⊆ k)
      (hsup : k ⊆ k') (a : α) (ha : k.find? p = some a) : k'.find? p = some a := by
    have hmem := List.mem_of_find?_eq_some ha
    have hpa := List.find?_some ha
    obtain ⟨b, hb⟩ := Option.isSome_iff_exists.mp (List.find?_isSome.mpr ⟨a, hsup hmem, hpa⟩)
    rw [hb, hk b (hsub (List.mem_of_find?_eq_some hb)) a hmem (List.find?_some hb) hpa]
  have hp' : ∀ a ∈ l', ∀ b ∈ l', p a → p b → a = b := fun a ha b hb =>
    hp a (h.mem_iff.mpr ha) b (h.mem_iff.mpr hb)
  exact Option.ext fun a => ⟨key hp h.symm.subset h.subset a, key hp' h.subset h.symm.subset a⟩

theorem find?_name_eq_of_perm {l l' : List α} {f : α → String} (h : l.Perm l')
    (hn : (l.map f).Nodup) (name : String) : l.find? (f · == name) = l'.find? (f · == name) := by
  refine find?_eq_of_perm h fun a ha b hb hpa hpb => ?_
  exact List.inj_on_of_nodup_map hn ha hb ((eq_of_beq hpa).trans (eq_of_beq hpb).symm)

-- ---------------------------------------------------------------------------
-- Nodes without parents
-- ---------------------------------------------------------------------------

namespace Node

def withoutParents (n : Node) : Node := { n with parents := [] }

/-- All of a node that does not depend on the order of the others. -/
def settled (n : Node) : Node × Bool := (n.withoutParents, n.isRoot)

theorem withoutParents_addParent (n : Node) (parent : String) :
    (n.addParent parent).1.withoutParents = n.withoutParents := by
  unfold addParent
  split <;> rfl

end Node

namespace Graph

variable {g g' : Graph} {analysis : AnalysisConfig}

/-- The graphs have the same nodes with the same children, in any order. -/
structure Reorders (g g' : Graph) : Prop where
  nodup : (g.nodes.map (·.name)).Nodup
  perm : (g.nodes.map (·.settled)).Perm (g'.nodes.map (·.settled))

-- ---------------------------------------------------------------------------
-- Wiring
-- ---------------------------------------------------------------------------

theorem has_eq_of_perm (h : g.nodes.Perm g'.nodes) : g.has = g'.has := by
  funext name
  rw [Bool.eq_iff_iff, has_iff, has_iff]
  exact (h.map _).mem_iff

theorem withChildren_eq_of_perm (h : g.nodes.Perm g'.nodes) (n : Node) :
    g.withChildren analysis n = g'.withChildren analysis n := by
  simp only [withChildren, contained, held, resolve?, has_eq_of_perm h]

theorem holders_perm (h : g.nodes.Perm g'.nodes) (child : String) :
    (g.holders child).Perm (g'.holders child) := (h.filter _).map _

theorem settled_withParents (g : Graph) (n : Node) : (g.withParents n).settled =
    (n.withoutParents, n.parents.isEmpty && (g.holders n.name).isEmpty) := by
  refine Prod.ext (Node.addParents_keeps Node.withoutParents_addParent _ n) ?_
  rw [Bool.eq_iff_iff]
  simp only [Node.settled, Node.isRoot, Bool.and_eq_true, List.isEmpty_iff,
    List.eq_nil_iff_forall_not_mem, mem_parents_withParents, not_or, forall_and]

theorem wire_reorders (h : Unwired g.nodes) (hperm : g.nodes.Perm g'.nodes) :
    (g.wire analysis).Reorders (g'.wire analysis) where
  nodup := by
    rw [names_wire]
    exact h.nodup
  perm := by
    have hlinked : (g.nodes.map (g.withChildren analysis)).Perm
        (g'.nodes.map (g'.withChildren analysis)) := by
      rw [← funext (withChildren_eq_of_perm hperm)]
      exact hperm.map _
    have hholders (child : String) :
        (Graph.holders ⟨g.nodes.map (g.withChildren analysis)⟩ child).isEmpty =
          (Graph.holders ⟨g'.nodes.map (g'.withChildren analysis)⟩ child).isEmpty :=
      (holders_perm hlinked child).isEmpty_eq
    simp only [wire, List.map_map, Function.comp_def, settled_withParents, hholders,
      withChildren_eq_of_perm hperm]
    exact hperm.map _

-- ---------------------------------------------------------------------------
-- What reordered graphs have in common
-- ---------------------------------------------------------------------------

theorem Reorders.find? (h : g.Reorders g') (name : String) :
    (g.find? name).map Node.withoutParents = (g'.find? name).map Node.withoutParents := by
  have key (k : Graph) : (k.find? name).map Node.withoutParents =
      ((k.nodes.map (·.settled)).find? (·.1.name == name)).map (·.1) := by
    rw [List.find?_map, Option.map_map]
    rfl
  have hnodup : ((g.nodes.map (·.settled)).map (·.1.name)).Nodup := by
    rw [List.map_map]
    exact h.nodup
  rw [key, key, find?_name_eq_of_perm h.perm hnodup]

theorem Reorders.refl_right (h : g.Reorders g') : g'.Reorders g' := by
  have hnames := h.perm.map (·.1.name)
  rw [List.map_map, List.map_map] at hnames
  exact ⟨hnames.nodup_iff.mp h.nodup, .refl _⟩

theorem Reorders.length_eq (h : g.Reorders g') : g.nodes.length = g'.nodes.length := by
  simpa using h.perm.length_eq

theorem child_iff_settled :
    g.Child a b ↔ ∃ s ∈ g.nodes.map (·.settled), s.1.name = a ∧ s.1.hasChild b := by
  simp only [Child, List.mem_map, exists_exists_and_eq_and]
  rfl

theorem Reorders.child_iff (h : g.Reorders g') : g.Child a b ↔ g'.Child a b := by
  simp only [child_iff_settled, h.perm.mem_iff]

theorem Reorders.cycle?_eq_none (h : g.Reorders g') (hg : g.Proper) (hg' : g'.Proper) :
    g.cycle? = none ↔ g'.cycle? = none := by
  have hchild : g.Child = g'.Child := by
    funext a b
    exact propext h.child_iff
  have none_iff {k : Graph} (hk : k.Proper) : k.cycle? = none ↔ k.Acyclic := by
    refine ⟨hk.cycle?_none, fun hacyclic => ?_⟩
    rw [Option.eq_none_iff_forall_ne_some]
    exact fun name hname => hacyclic name (hk.cycle?_some hname)
  rw [none_iff hg, none_iff hg', Acyclic, Acyclic, hchild]

end Graph

end SceneDiagram.Hierarchy
