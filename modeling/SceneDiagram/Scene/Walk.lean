import SceneDiagram.Scene

/-!
# Walking a scene tree

The descendants of a node are visited depth first, every node before its own
descendants and siblings in their order. The walk is lazy: its state is the
siblings still to visit on every level, innermost level first.
-/

namespace SceneDiagram.SceneNode

mutual

def size (n : SceneNode) : Nat :=
  match n with
  | ⟨_, _, _, _, _, children⟩ => 1 + sizeAll children

def sizeAll : List SceneNode → Nat
  | [] => 0
  | n :: ns => size n + sizeAll ns

end

mutual

/-- The descendants of a node, each before its own descendants. -/
def descendants (n : SceneNode) : List SceneNode :=
  match n with
  | ⟨_, _, _, _, _, children⟩ => withDescendants children

def withDescendants : List SceneNode → List SceneNode
  | [] => []
  | n :: ns => n :: (descendants n ++ withDescendants ns)

end

/-- A walk in progress: the siblings still to visit, innermost level first. -/
structure Walk where
  levels : List (List SceneNode)

namespace Walk

def work : List (List SceneNode) → Nat
  | [] => 0
  | level :: levels => 1 + 2 * sizeAll level + work levels

/-- Visits the next node. Levels without further siblings are left; the children
of the node visited become the innermost level. -/
def next? : List (List SceneNode) → Option (SceneNode × Walk)
  | [] => none
  | [] :: levels => next? levels
  | (n :: siblings) :: levels => some (n, ⟨n.children :: siblings :: levels⟩)

theorem size_eq (n : SceneNode) : n.size = 1 + sizeAll n.children := by
  cases n; rfl

theorem work_next? {levels : List (List SceneNode)} {n : SceneNode} {w : Walk}
    (h : next? levels = some (n, w)) : work w.levels < work levels := by
  induction levels with
  | nil => simp [next?] at h
  | cons level levels ih =>
    cases level with
    | nil =>
      have := ih h
      simp only [work]
      omega
    | cons m siblings =>
      simp only [next?, Option.some.injEq, Prod.mk.injEq] at h
      obtain ⟨rfl, rfl⟩ := h
      simp only [work, sizeAll, size_eq]
      omega

def toList (w : Walk) : List SceneNode :=
  match _h : next? w.levels with
  | none => []
  | some (n, rest) => n :: rest.toList
termination_by work w.levels
decreasing_by exact work_next? _h

end Walk

def walk (n : SceneNode) : Walk := ⟨[n.children]⟩

end SceneDiagram.SceneNode
