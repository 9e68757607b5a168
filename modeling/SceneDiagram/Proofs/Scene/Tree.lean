import Mathlib.Data.List.Nodup
import Mathlib.Data.List.Perm.Basic
import SceneDiagram.Proofs.Scene.Walk
import SceneDiagram.Scene.Elaboration

/-!
# The tree of a draft

Every node of a draft hangs on the root or on an earlier node. So the tree holds
each of them once (`perm_trees`), and what hangs on one anchor stands in file order
(`subtrees_eq`).
-/

namespace SceneDiagram

def SceneNode.bare (n : SceneNode) : SceneNode := { n with children := [] }

@[simp] theorem SceneNode.bare_hung (n : SceneNode) (children : List SceneNode) :
    { n with children := children }.bare = n.bare := rfl

theorem SceneNode.bare_eq {n : SceneNode} (h : n.children = []) : n.bare = n := by
  cases n
  cases h
  rfl

namespace Draft

variable {nodes front back : List (SceneNode × Anchor)} {a : Anchor}

/-- The node placed at a position, with all that hangs on it. -/
def grown (nodes : List (SceneNode × Anchor)) (entry : (SceneNode × Anchor) × Nat) : SceneNode :=
  { entry.1.1 with children := subtrees 0 nodes (.placed entry.2) }

@[simp] theorem name_grown (nodes : List (SceneNode × Anchor))
    (entry : (SceneNode × Anchor) × Nat) : (grown nodes entry).name = entry.1.1.name := rfl

@[simp] theorem fullName_grown (nodes : List (SceneNode × Anchor))
    (entry : (SceneNode × Anchor) × Nat) : (grown nodes entry).fullName = entry.1.1.fullName := rfl

/-- The nodes below the root in file order, each with all that hangs on it. -/
def trees (nodes : List (SceneNode × Anchor)) : List SceneNode := nodes.zipIdx.map (grown nodes)

/-- No node hangs on itself or on a later one. -/
def Earlier (nodes : List (SceneNode × Anchor)) : Prop :=
  ∀ (i j : Nat) (n : SceneNode), nodes[i]? = some (n, .placed j) → j < i

-- ---------------------------------------------------------------------------
-- What hangs on an anchor
-- ---------------------------------------------------------------------------

theorem subtrees_append (h : ∀ e ∈ front, e.2 ≠ a) (position : Nat) :
    subtrees position (front ++ back) a = subtrees (position + front.length) back a := by
  induction front generalizing position with
  | nil => rfl
  | cons e front ih =>
    obtain ⟨he, hfront⟩ := List.forall_mem_cons.mp h
    rw [List.cons_append, subtrees, if_neg he, ih hfront, List.length_cons, Nat.add_assoc,
      Nat.add_comm 1]

theorem Earlier.subtrees_behind (h : Earlier (front ++ e :: back)) :
    subtrees (front.length + 1) back (.placed front.length) =
      subtrees 0 (front ++ e :: back) (.placed front.length) := by
  have hfront : ∀ c ∈ front ++ [e], c.2 ≠ .placed front.length := by
    rintro ⟨n, above⟩ hc rfl
    obtain ⟨i, hi, hget⟩ := List.mem_iff_getElem.mp hc
    have hlt : i < front.length + 1 := by simpa using hi
    have hwhole : (front ++ e :: back)[i]? = some (n, .placed front.length) := by
      rw [List.append_cons, List.getElem?_append_left hi, List.getElem?_eq_getElem hi, hget]
    have hearlier := h i front.length n hwhole
    omega
  have hsplit : subtrees 0 (front ++ [e] ++ back) (.placed front.length) =
      subtrees (0 + (front ++ [e]).length) back (.placed front.length) :=
    subtrees_append hfront 0
  rw [← List.append_cons] at hsplit
  rw [hsplit]
  simp

theorem Earlier.subtrees_suffix (h : Earlier (front ++ back)) (a : Anchor) :
    subtrees front.length back a =
      ((back.zipIdx front.length).filter (·.1.2 = a)).map (grown (front ++ back)) := by
  induction back generalizing front with
  | nil => rfl
  | cons e back ih =>
    have hnext : Earlier (front ++ [e] ++ back) := by simpa using h
    have hrest := ih hnext
    rw [List.length_append, List.length_singleton, ← List.append_cons] at hrest
    rw [List.zipIdx_cons, subtrees, hrest, h.subtrees_behind]
    by_cases ha : e.2 = a
    · rw [if_pos ha, List.filter_cons_of_pos (by simpa using ha), List.map_cons]
      rfl
    · rw [if_neg ha, List.filter_cons_of_neg (by simpa using ha)]

theorem Earlier.subtrees_eq (h : Earlier nodes) (a : Anchor) :
    subtrees 0 nodes a = (nodes.zipIdx.filter (·.1.2 = a)).map (grown nodes) := by
  have hwhole : Earlier ([] ++ nodes) := h
  exact hwhole.subtrees_suffix a

theorem Earlier.subtrees_sublist (h : Earlier nodes) (a : Anchor) :
    (subtrees 0 nodes a).Sublist (trees nodes) := by
  rw [h.subtrees_eq, trees]
  exact List.filter_sublist.map _

theorem Earlier.children_sublist (h : Earlier nodes) (hn : n ∈ trees nodes) :
    n.children.Sublist (trees nodes) := by
  obtain ⟨entry, -, rfl⟩ := List.mem_map.mp hn
  exact h.subtrees_sublist _

theorem map_bare_trees (nodes : List (SceneNode × Anchor)) :
    (trees nodes).map (·.bare) = nodes.map (·.1.bare) := by
  rw [trees, List.map_map]
  conv => rhs; rw [← List.zipIdx_map_fst 0 nodes, List.map_map]
  rfl

-- ---------------------------------------------------------------------------
-- Each node once
-- ---------------------------------------------------------------------------

theorem flatMap_insert_perm [DecidableEq α] {l : List α} {c : α} (hl : l.Nodup) (hc : c ∈ l)
    (x : List β) (g : α → List β) :
    (l.flatMap fun b => if c = b then x ++ g b else g b).Perm (x ++ l.flatMap g) := by
  have hfront := List.perm_cons_erase hc
  have hothers : ∀ b ∈ l.erase c, (if c = b then x ++ g b else g b) = g b := fun b hb =>
    if_neg (Ne.symm (hl.mem_erase_iff.mp hb).1)
  calc (l.flatMap fun b => if c = b then x ++ g b else g b).Perm
        ((c :: l.erase c).flatMap fun b => if c = b then x ++ g b else g b) :=
      hfront.flatMap_right _
    _ = x ++ (c :: l.erase c).flatMap g := by
      rw [List.flatMap_cons, if_pos rfl, List.flatMap_congr hothers, List.append_assoc,
        List.flatMap_cons]
    (x ++ (c :: l.erase c).flatMap g).Perm (x ++ l.flatMap g) :=
      (hfront.symm.flatMap_right g).append_left x

theorem Earlier.perm_suffix (h : Earlier (front ++ back)) {anchors : List Anchor}
    (hnodup : anchors.Nodup) (hroot : .root ∈ anchors)
    (hplaced : ∀ i, .placed i ∈ anchors ↔ i < front.length) :
    (anchors.flatMap fun a => SceneNode.withDescendants (subtrees front.length back a)).Perm
      ((back.zipIdx front.length).map (grown (front ++ back))) := by
  induction back generalizing front anchors with
  | nil => simp [subtrees, SceneNode.withDescendants]
  | cons e back ih =>
    have hopen : e.2 ∈ anchors := by
      cases ha : e.2 with
      | root => exact hroot
      | placed j =>
        have hj := h front.length j e.1 (by rw [← ha]; simp)
        exact (hplaced j).mpr hj
    have hnew : .placed front.length ∉ anchors := fun hmem =>
      Nat.lt_irrefl _ ((hplaced front.length).mp hmem)
    -- The node is taken out of what hangs on its anchor, and what hangs on it comes in.
    have hnext : Earlier (front ++ [e] ++ back) := by simpa using h
    have hrest := ih hnext (List.nodup_cons.mpr ⟨hnew, hnodup⟩) (List.mem_cons_of_mem _ hroot)
      (fun i => by
        rw [List.mem_cons, hplaced, Anchor.placed.injEq, List.length_append,
          List.length_singleton]
        omega)
    rw [List.length_append, List.length_singleton, ← List.append_cons, List.flatMap_cons,
      h.subtrees_behind] at hrest
    have hhead (a : Anchor) : SceneNode.withDescendants (subtrees front.length (e :: back) a) =
        if e.2 = a then
          (grown (front ++ e :: back) (e, front.length) :: SceneNode.withDescendants
            (subtrees 0 (front ++ e :: back) (.placed front.length))) ++
            SceneNode.withDescendants (subtrees (front.length + 1) back a)
        else SceneNode.withDescendants (subtrees (front.length + 1) back a) := by
      rw [subtrees, h.subtrees_behind]
      split
      · rw [SceneNode.withDescendants, SceneNode.descendants_eq, List.cons_append]
        rfl
      · rfl
    simp only [hhead]
    rw [List.zipIdx_cons, List.map_cons]
    exact (flatMap_insert_perm hnodup hopen _ _).trans (hrest.cons _)

/-- The tree below the root holds each node once. -/
theorem Earlier.perm_trees (h : Earlier nodes) :
    (SceneNode.withDescendants (subtrees 0 nodes .root)).Perm (trees nodes) := by
  have hwhole : Earlier ([] ++ nodes) := h
  have hall := hwhole.perm_suffix (List.nodup_singleton .root) (List.mem_singleton_self _) (by simp)
  simpa [trees] using hall

end Draft

end SceneDiagram
