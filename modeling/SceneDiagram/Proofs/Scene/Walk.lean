import SceneDiagram.Scene.Walk

/-!
# What a walk visits

A walk visits the trees that are left on its levels, innermost level first,
each node before its descendants. `walk_in_preorder`: taken step by step, the walk
over the descendants of a node ends, and what it visits is every child with the walk
over the descendants of that child behind it.
-/

namespace SceneDiagram.SceneNode

theorem descendants_eq (n : SceneNode) : n.descendants = withDescendants n.children := by
  cases n
  rw [descendants]

namespace Walk

def left (levels : List (List SceneNode)) : List SceneNode := levels.flatMap withDescendants

variable {levels : List (List SceneNode)}

theorem left_next?_none (h : next? levels = none) : left levels = [] := by
  induction levels with
  | nil => rfl
  | cons level levels ih =>
    cases level with
    | nil => simpa [left, withDescendants] using ih h
    | cons n siblings => simp [next?] at h

theorem left_next?_some (h : next? levels = some (n, w)) : left levels = n :: left w.levels := by
  induction levels with
  | nil => simp [next?] at h
  | cons level levels ih =>
    cases level with
    | nil => simpa [left, withDescendants] using ih h
    | cons m siblings =>
      simp only [next?, Option.some.injEq, Prod.mk.injEq] at h
      obtain ⟨rfl, rfl⟩ := h
      simp [left, withDescendants, descendants_eq]

theorem toList_eq_left (w : Walk) : w.toList = left w.levels := by
  fun_induction toList w with
  | case1 w h => rw [left_next?_none h]
  | case2 w n rest h ih => rw [left_next?_some h, ih]

/-- Taking the next node again and again visits these nodes, and then there is none. -/
inductive Visits : Walk → List SceneNode → Prop
  | stop : next? w.levels = none → Visits w []
  | step : next? w.levels = some (n, rest) → Visits rest ns → Visits w (n :: ns)

theorem Visits.eq_left (h : Visits w ns) : ns = left w.levels := by
  induction h with
  | stop hnext => exact (left_next?_none hnext).symm
  | step hnext _ ih => rw [left_next?_some hnext, ih]

theorem visits_toList (w : Walk) : w.Visits w.toList := by
  fun_induction toList w with
  | case1 w h => exact .stop h
  | case2 w n rest h ih => exact .step h ih

/-- From whatever levels it goes on, a walk ends, and visits its nodes in one order. -/
theorem visits_iff {w : Walk} : w.Visits ns ↔ ns = w.toList := by
  constructor
  · intro h
    rw [h.eq_left, toList_eq_left]
  · rintro rfl
    exact w.visits_toList

end Walk

@[simp] theorem toList_walk (n : SceneNode) : n.walk.toList = n.descendants := by
  simp [Walk.toList_eq_left, walk, Walk.left, descendants_eq]

theorem withDescendants_eq (ns : List SceneNode) :
    withDescendants ns = ns.flatMap fun n => n :: n.descendants := by
  induction ns with
  | nil => rfl
  | cons n ns ih => rw [withDescendants, ih, List.flatMap_cons, List.cons_append]

mutual

theorem length_descendants (n : SceneNode) : n.descendants.length + 1 = n.size := by
  obtain ⟨_, _, _, _, _, children⟩ := n
  rw [descendants, size, length_withDescendants children, Nat.add_comm]

theorem length_withDescendants (ns : List SceneNode) :
    (withDescendants ns).length = sizeAll ns := by
  cases ns with
  | nil => rfl
  | cons n ns =>
    rw [withDescendants, sizeAll, List.length_cons, List.length_append,
      length_withDescendants ns, ← length_descendants n]
    omega

end

/-- The walk over the descendants of a node visits as many nodes as there are, each
child in order, and behind it what the walk over the descendants of the child visits. -/
theorem walk_in_preorder (n : SceneNode) :
    (∀ ns, n.walk.Visits ns ↔ ns = n.children.flatMap fun c => c :: c.walk.toList) ∧
      n.walk.Visits n.walk.toList ∧ n.walk.toList.length + 1 = n.size := by
  have horder : n.walk.toList = n.children.flatMap fun c => c :: c.walk.toList := by
    simp only [toList_walk]
    rw [descendants_eq, withDescendants_eq]
  refine ⟨fun ns => ?_, n.walk.visits_toList, ?_⟩
  · rw [Walk.visits_iff, horder]
  · rw [toList_walk, length_descendants]

end SceneDiagram.SceneNode
