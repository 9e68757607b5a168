import SceneDiagram.Hierarchy.Node

/-!
# First edges

A node keeps the first edge to each child. `firstEdges` picks those of a list,
in their order, and `children_addChildren` says that adding the list one by
one keeps exactly them.
-/

namespace SceneDiagram.Hierarchy

/-- The first edge to every child, in order of first appearance. -/
def firstEdges : List (String × Edge) → List (String × Edge)
  | [] => []
  | e :: es => e :: (firstEdges es).filter (·.1 ≠ e.1)

theorem eraseDups_filter [BEq α] [LawfulBEq α] (p : α → Bool) (l : List α) :
    (l.filter p).eraseDups = l.eraseDups.filter p := by
  induction hn : l.length using Nat.strongRecOn generalizing l with
  | ind n ih =>
    cases l with
    | nil => rfl
    | cons a as =>
      have hlt : (as.filter fun b => !b == a).length < n :=
        hn ▸ Nat.lt_succ_of_le (List.length_filter_le _ _)
      rw [List.eraseDups_cons, List.filter_cons, List.filter_cons, ← ih _ hlt _ rfl,
        List.filter_filter]
      split
      · rw [List.eraseDups_cons, List.filter_filter]
        simp only [Bool.and_comm]
      · next hp =>
        congr 1
        refine List.filter_congr fun b _ => ?_
        by_cases hb : b = a
        · simp [hb, hp]
        · simp [hb]

theorem map_fst_firstEdges (es : List (String × Edge)) :
    (firstEdges es).map (·.1) = (es.map (·.1)).eraseDups := by
  induction es with
  | nil => rfl
  | cons e es ih =>
    rw [firstEdges, List.map_cons, List.map_cons, List.eraseDups_cons, eraseDups_filter, ← ih,
      List.filter_map]
    congr 2
    refine List.filter_congr fun f _ => ?_
    by_cases hf : f.1 = e.1 <;> simp [hf]

theorem find?_firstEdges (es : List (String × Edge)) (c : String) :
    (firstEdges es).find? (·.1 == c) = es.find? (·.1 == c) := by
  induction es with
  | nil => rfl
  | cons e es ih =>
    rw [firstEdges, List.find?_cons, List.find?_cons]
    split
    · rfl
    · next h =>
      rw [← ih, List.find?_filter]
      congr 1
      funext f
      by_cases hf : f.1 = c
      · have : c ≠ e.1 := fun he => by simp [he] at h
        simp [hf, this]
      · simp [hf]

theorem nodup_firstEdges (es : List (String × Edge)) : ((firstEdges es).map (·.1)).Nodup := by
  induction es with
  | nil => exact List.nodup_nil
  | cons e es ih =>
    rw [firstEdges, List.map_cons, List.nodup_cons]
    refine ⟨by simp, ih.sublist ?_⟩
    exact List.filter_sublist.map _

theorem find?_eq_some_of_nodup {l : List α} {f : α → String} (h : (l.map f).Nodup) (hm : a ∈ l) :
    l.find? (f · == f a) = some a := by
  induction l with
  | nil => cases hm
  | cons b l ih =>
    rw [List.map_cons, List.nodup_cons] at h
    rw [List.find?_cons]
    rcases List.mem_cons.mp hm with rfl | hm
    · simp
    · have hne : f b ≠ f a := fun hb => h.1 (hb ▸ List.mem_map_of_mem hm)
      rw [beq_eq_false_iff_ne.mpr hne]
      exact ih h.2 hm

theorem find?_of_mem {es : List (String × Edge)} (h : (c, e) ∈ es) :
    ∃ first, es.find? (·.1 == c) = some (c, first) := by
  have hfind : (es.find? (·.1 == c)).isSome := by
    rw [List.find?_isSome]
    exact ⟨_, h, beq_self_eq_true c⟩
  obtain ⟨⟨d, first⟩, hfirst⟩ := Option.isSome_iff_exists.mp hfind
  obtain rfl : d = c := eq_of_beq (List.find?_some hfirst :)
  exact ⟨first, hfirst⟩

theorem mem_firstEdges {es : List (String × Edge)} :
    (c, e) ∈ firstEdges es ↔ es.find? (·.1 == c) = some (c, e) := by
  rw [← find?_firstEdges]
  exact ⟨find?_eq_some_of_nodup (nodup_firstEdges es), List.mem_of_find?_eq_some⟩

theorem firstEdges_append (es fs : List (String × Edge)) :
    firstEdges (es ++ fs) = firstEdges es ++ (firstEdges fs).filter (·.1 ∉ es.map (·.1)) := by
  induction es with
  | nil => simp [firstEdges, List.filter_eq_self.mpr]
  | cons e es ih =>
    rw [List.cons_append, firstEdges, firstEdges, ih, List.filter_append, List.filter_filter,
      List.cons_append]
    congr 2
    refine List.filter_congr fun f _ => ?_
    by_cases hf : f.1 = e.1 <;> simp [hf]

namespace Node

theorem addChild_of_hasChild {n : Node} (h : n.hasChild c) : n.addChild c e = (n, false) := if_pos h

theorem children_addChild {n : Node} (h : n.hasChild c = false) :
    (n.addChild c e).1.children = n.children ++ [(c, e)] := by
  simp [addChild, h]

theorem children_addChildren (es : List (String × Edge)) (n : Node) :
    (n.addChildren es).children =
      n.children ++ (firstEdges es).filter (fun e => !n.hasChild e.1) := by
  induction es generalizing n with
  | nil => simp [addChildren, firstEdges]
  | cons e es ih =>
    obtain ⟨c, e⟩ := e
    rw [addChildren_cons, ih, firstEdges, List.filter_cons, List.filter_filter]
    cases h : n.hasChild c with
    | true =>
      rw [addChild_of_hasChild h]
      congr 1
      refine List.filter_congr fun f _ => ?_
      by_cases hf : f.1 = c <;> simp [hf, h]
    | false =>
      rw [children_addChild h, List.append_assoc, Bool.not_false, if_pos rfl, List.singleton_append]
      congr 2
      refine List.filter_congr fun f _ => ?_
      by_cases hf : f.1 = c
      · simp [hasChild, children_addChild h, hf]
      · simp [hasChild, children_addChild h, hf, Ne.symm hf]

end Node

end SceneDiagram.Hierarchy
