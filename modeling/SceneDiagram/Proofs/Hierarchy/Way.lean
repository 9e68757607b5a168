import Mathlib.Data.List.Nodup
import Mathlib.Data.List.Perm.Subperm
import Mathlib.Data.Set.Card
import SceneDiagram.Hierarchy.Cycle
import SceneDiagram.Proofs.Hierarchy.Wiring

/-!
# Ways along child edges

A way leads down child edges from one node to another. Without cycles no way
meets a node twice, so no way is longer than there are nodes, and climbing from
any node ends at a root.
-/

open Relation (ReflTransGen TransGen)

namespace SceneDiagram.Hierarchy

/-- What the passes over a wired graph rely on. -/
structure Graph.Proper (g : Graph) : Prop where
  nodup : (g.nodes.map (·.name)).Nodup
  childrenNodup : ∀ n ∈ g.nodes, (n.children.map (·.1)).Nodup
  registered : ∀ n ∈ g.nodes, ∀ c, n.hasChild c → g.has c
  notSelf : ∀ n ∈ g.nodes, ¬ n.hasChild n.name
  root : ∀ n ∈ g.nodes, n.isRoot ↔ ∀ p ∈ g.nodes, ¬ p.hasChild n.name

theorem Unwired.proper_wire {g : Graph} (h : Unwired g.nodes) (analysis : AnalysisConfig) :
    (g.wire analysis).Proper where
  nodup := by
    rw [Graph.names_wire]
    exact h.nodup
  childrenNodup n hn := (Graph.wiredAt_wire h hn).nodup
  registered n hn c hc := ((Graph.hasChild_wire h hn).mp hc).1
  notSelf n hn := Graph.hasChild_self_wire h hn
  root n hn := Graph.isRoot_wire h hn

namespace Graph

variable {g : Graph}

-- ---------------------------------------------------------------------------
-- Child edges
-- ---------------------------------------------------------------------------

/-- `b` is a child of the node called `a`. -/
def Child (g : Graph) (a b : String) : Prop := ∃ n ∈ g.nodes, n.name = a ∧ n.hasChild b

/-- No way along child edges leads back to where it began. -/
def Acyclic (g : Graph) : Prop := ∀ name, ¬ TransGen g.Child name name

theorem Proper.find?_eq_some (hg : g.Proper) :
    g.find? name = some n ↔ n ∈ g.nodes ∧ n.name = name := by
  constructor
  · exact fun h => ⟨List.mem_of_find?_eq_some h, eq_of_beq (List.find?_some h :)⟩
  · rintro ⟨hn, rfl⟩
    exact find?_eq_some_of_nodup hg.nodup hn

theorem Proper.next_name (hg : g.Proper) (hn : n ∈ g.nodes) :
    g.next n.name = n.children.map (·.1) := by
  rw [next, hg.find?_eq_some.mpr ⟨hn, rfl⟩, Option.elim_some, List.filter_eq_self]
  intro c hc
  obtain ⟨e, he, rfl⟩ := List.mem_map.mp hc
  exact hg.registered n hn e.1 (hasChild_iff.mpr ⟨e.2, he⟩)

theorem mem_names_of_mem_next (h : b ∈ g.next a) : b ∈ g.names := by
  cases hf : g.find? a with
  | none => simp [next, hf] at h
  | some n =>
    rw [next, hf, Option.elim_some, List.mem_filter] at h
    exact has_iff.mp h.2

theorem Child.mem_names (h : g.Child a b) : a ∈ g.names := by
  obtain ⟨n, hn, rfl, -⟩ := h
  exact List.mem_map_of_mem hn

theorem mem_children_iff {n : Node} : c ∈ n.children.map (·.1) ↔ n.hasChild c := by
  simp [Node.hasChild]

theorem Proper.mem_next (hg : g.Proper) : b ∈ g.next a ↔ g.Child a b := by
  constructor
  · intro h
    cases hf : g.find? a with
    | none => simp [next, hf] at h
    | some n =>
      obtain ⟨hn, rfl⟩ := hg.find?_eq_some.mp hf
      rw [hg.next_name hn, mem_children_iff] at h
      exact ⟨n, hn, rfl, h⟩
  · rintro ⟨n, hn, rfl, hc⟩
    rwa [hg.next_name hn, mem_children_iff]

theorem Proper.nodup_next (hg : g.Proper) (a : String) : (g.next a).Nodup := by
  cases hf : g.find? a with
  | none => simp [next, hf]
  | some n =>
    obtain ⟨hn, rfl⟩ := hg.find?_eq_some.mp hf
    rw [hg.next_name hn]
    exact hg.childrenNodup n hn

theorem Proper.mem_names_of_child (hg : g.Proper) (h : g.Child a b) : b ∈ g.names :=
  mem_names_of_mem_next (hg.mem_next.mpr h)

theorem Proper.ne_of_child (hg : g.Proper) (h : g.Child a b) : a ≠ b := by
  rintro rfl
  obtain ⟨n, hn, rfl, hc⟩ := h
  exact hg.notSelf n hn hc

-- ---------------------------------------------------------------------------
-- Ways
-- ---------------------------------------------------------------------------

/-- The names along a way down child edges from `a` to `c`, both included. -/
inductive Way (g : Graph) : String → List String → String → Prop
  | here : Way g a [a] a
  | step : g.Child a b → Way g b way c → Way g a (a :: way) c

theorem Way.reaches (h : g.Way a way c) : ∀ x ∈ way, ReflTransGen g.Child a x := by
  induction h with
  | here =>
    intro x hx
    rw [List.mem_singleton.mp hx]
  | step hc _ ih =>
    intro x hx
    rcases List.mem_cons.mp hx with rfl | hx
    · exact .refl
    · exact .head hc (ih x hx)

theorem Way.mem_end (h : g.Way a way c) : c ∈ way := by
  induction h with
  | here => exact List.mem_singleton_self _
  | step _ _ ih => exact List.mem_cons_of_mem _ ih

theorem Way.mem_names (hg : g.Proper) (h : g.Way a way c) (ha : a ∈ g.names) :
    ∀ x ∈ way, x ∈ g.names := by
  induction h with
  | here =>
    intro x hx
    rwa [List.mem_singleton.mp hx]
  | step hc _ ih =>
    intro x hx
    rcases List.mem_cons.mp hx with rfl | hx
    · exact ha
    · exact ih (hg.mem_names_of_child hc) x hx

theorem Way.nodup (hacyclic : g.Acyclic) (h : g.Way a way c) : way.Nodup := by
  induction h with
  | here => exact List.pairwise_singleton _ _
  | step hc hway ih =>
    exact List.nodup_cons.mpr ⟨fun hx => hacyclic _ (.head' hc (hway.reaches _ hx)), ih⟩

/-- Without cycles no way is longer than there are nodes. -/
theorem Way.length_le (hg : g.Proper) (hacyclic : g.Acyclic) (h : g.Way a way c)
    (ha : a ∈ g.names) : way.length ≤ g.nodes.length := by
  have hsub := (List.subperm_of_subset (h.nodup hacyclic) (h.mem_names hg ha)).length_le
  rwa [names, List.length_map] at hsub

theorem Proper.climb (hg : g.Proper) (hn : n ∈ g.nodes) (k : Nat) :
    (∃ root ∈ g.nodes, root.isRoot ∧ ∃ way, g.Way root.name way n.name) ∨
      ∃ m ∈ g.nodes, ∃ way, g.Way m.name way n.name ∧ way.length = k + 1 := by
  induction k with
  | zero => exact .inr ⟨n, hn, [n.name], .here, rfl⟩
  | succ k ih =>
    rcases ih with hroot | ⟨m, hm, way, hway, hk⟩
    · exact .inl hroot
    · by_cases hr : m.isRoot
      · exact .inl ⟨m, hm, hr, way, hway⟩
      · rw [hg.root m hm] at hr
        simp only [Classical.not_forall, not_not] at hr
        obtain ⟨p, hp, hc⟩ := hr
        exact .inr ⟨p, hp, p.name :: way, .step ⟨p, hp, rfl, hc⟩ hway, by rw [List.length_cons, hk]⟩

theorem Proper.exists_root (hg : g.Proper) (hacyclic : g.Acyclic) (hn : n ∈ g.nodes) :
    ∃ root ∈ g.nodes, root.isRoot ∧ ∃ way, g.Way root.name way n.name := by
  rcases hg.climb hn g.nodes.length with hroot | ⟨m, hm, way, hway, hk⟩
  · exact hroot
  · have hle := hway.length_le hg hacyclic (List.mem_map_of_mem hm)
    omega

-- ---------------------------------------------------------------------------
-- Counting ways
-- ---------------------------------------------------------------------------

def waysWithin (g : Graph) (c : String) : Nat → String → List (List String)
  | 0, _ => []
  | depth + 1, a =>
    (if a = c then [[a]] else []) ++
      (g.next a).flatMap fun b => (g.waysWithin c depth b).map (a :: ·)

/-- The names that the ways within `depth` end at, way by way. -/
def endsWithin (g : Graph) : Nat → String → List String
  | 0, _ => []
  | depth + 1, a => a :: (g.next a).flatMap (g.endsWithin depth)

theorem Way.head? (h : g.Way a way c) : way.head? = some a := by
  cases h <;> rfl

theorem Proper.mem_waysWithin (hg : g.Proper) :
    way ∈ g.waysWithin c depth a ↔ g.Way a way c ∧ way.length ≤ depth := by
  induction depth generalizing a way with
  | zero =>
    simp only [waysWithin, List.not_mem_nil, false_iff, not_and]
    intro h hlen
    rw [List.eq_nil_of_length_eq_zero (Nat.le_zero.mp hlen)] at h
    cases h
  | succ depth ih =>
    simp only [waysWithin, List.mem_append, List.mem_flatMap, List.mem_map, ih, hg.mem_next]
    constructor
    · rintro (h | ⟨b, hb, tail, ⟨htail, hlen⟩, rfl⟩)
      · split at h
        · next hac =>
          rw [List.mem_singleton.mp h, hac]
          exact ⟨.here, Nat.succ_le_succ (Nat.zero_le _)⟩
        · cases h
      · exact ⟨.step hb htail, Nat.succ_le_succ hlen⟩
    · rintro ⟨h, hlen⟩
      cases h with
      | here => simp
      | step hb htail => exact .inr ⟨_, hb, _, ⟨htail, Nat.le_of_succ_le_succ hlen⟩, rfl⟩

theorem Proper.nodup_waysWithin (hg : g.Proper) : (g.waysWithin c depth a).Nodup := by
  induction depth generalizing a with
  | zero => exact .nil
  | succ depth ih =>
    have hhead : ∀ b, ∀ way ∈ g.waysWithin c depth b, way.head? = some b :=
      fun b way h => (hg.mem_waysWithin.mp h).1.head?
    rw [waysWithin, List.nodup_append]
    refine ⟨by split <;> simp, ?_, ?_⟩
    · rw [List.nodup_flatMap]
      refine ⟨fun b _ => ih.map fun _ _ h => (List.cons.inj h).2, ?_⟩
      -- the second name of a way tells which child it goes through
      refine (hg.nodup_next a).imp fun hne way h₁ h₂ => ?_
      obtain ⟨tail₁, ht₁, rfl⟩ := List.mem_map.mp h₁
      obtain ⟨tail₂, ht₂, heq⟩ := List.mem_map.mp h₂
      obtain rfl := (List.cons.inj heq).2
      exact hne (Option.some.inj ((hhead _ _ ht₁).symm.trans (hhead _ _ ht₂)))
    · rintro _ h₁ way h₂ rfl
      obtain ⟨b, -, hb⟩ := List.mem_flatMap.mp h₂
      obtain ⟨tail, ht, rfl⟩ := List.mem_map.mp hb
      have hnil : tail = [] := by
        split at h₁
        · exact (List.cons.inj (List.mem_singleton.mp h₁)).2
        · cases h₁
      cases (hhead b tail ht).symm.trans (congrArg List.head? hnil)

theorem mem_names_of_mem_endsWithin (ha : a ∈ g.names) (hx : x ∈ g.endsWithin depth a) :
    x ∈ g.names := by
  induction depth generalizing a with
  | zero => cases hx
  | succ depth ih =>
    rcases List.mem_cons.mp hx with rfl | hx
    · exact ha
    · obtain ⟨b, hb, hx⟩ := List.mem_flatMap.mp hx
      exact ih (mem_names_of_mem_next hb) hx

theorem length_waysWithin : (g.waysWithin c depth a).length = (g.endsWithin depth a).count c := by
  induction depth generalizing a with
  | zero => rfl
  | succ depth ih =>
    have hsum : ((g.next a).map fun b => ((g.waysWithin c depth b).map (a :: ·)).length).sum =
        ((g.next a).map (List.count c ∘ g.endsWithin depth)).sum := by
      congr 1
      exact List.map_congr_left fun b _ => (List.length_map _).trans ih
    rw [waysWithin, endsWithin, List.length_append, List.count_cons, List.length_flatMap,
      List.count_flatMap, hsum, Nat.add_comm]
    congr 1
    by_cases hac : a = c <;> simp [hac]

noncomputable def wayCount (g : Graph) (a c : String) : ℕ∞ := {way | g.Way a way c}.encard

/-- Without cycles there are finitely many ways, one for each of the ends. -/
theorem Proper.wayCount_eq (hg : g.Proper) (hacyclic : g.Acyclic) (ha : a ∈ g.names)
    (c : String) : g.wayCount a c = (g.endsWithin g.nodes.length a).count c := by
  have hset : {way | g.Way a way c} = (g.waysWithin c g.nodes.length a).toFinset := by
    ext way
    simp only [Set.mem_ofPred_eq, List.coe_toFinset, hg.mem_waysWithin]
    exact ⟨fun h => ⟨h, h.length_le hg hacyclic ha⟩, fun h => h.1⟩
  rw [wayCount, hset, Set.encard_coe_eq_coe_finsetCard,
    List.toFinset_card_of_nodup hg.nodup_waysWithin, length_waysWithin]

theorem Acyclic.wayCount_self (hacyclic : g.Acyclic) (a : String) : g.wayCount a a = 1 := by
  rw [wayCount, Set.encard_eq_one]
  refine ⟨[a], Set.eq_singleton_iff_unique_mem.mpr ⟨.here, fun way h => ?_⟩⟩
  cases h with
  | here => rfl
  | step hc hway =>
    exact (hacyclic a (.head' hc (hway.reaches a hway.mem_end))).elim

theorem Way.wayCount_ne_zero (h : g.Way a way c) : g.wayCount a c ≠ 0 := by
  rw [wayCount, Set.encard_ne_zero]
  exact ⟨way, h⟩

end Graph

end SceneDiagram.Hierarchy
