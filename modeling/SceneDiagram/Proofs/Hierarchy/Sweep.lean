import SceneDiagram.Proofs.Hierarchy.Cycle

/-!
# The check as a second search

`swept?_finishOrder`: the edge that the check looks for is what a second search
finds. It goes against the edges, from every name in the order of finishing, and
where it meets a second name from one start, that is the source of the edge.
-/

namespace SceneDiagram.Hierarchy

namespace Search

variable {next : String → List String} {s : Search}

theorem visit_of_mem (h : name ∈ s.met) : visit next depth s name = s := by
  cases depth with
  | zero => rfl
  | succ depth => rw [visit, if_pos h]

theorem foldl_visit_of_mem {ns : List String} (h : ∀ a ∈ ns, a ∈ s.met) :
    ns.foldl (visit next depth) s = s := by
  induction ns with
  | nil => rfl
  | cons n ns ih =>
    rw [List.foldl_cons, visit_of_mem (h n List.mem_cons_self)]
    exact ih fun a ha => h a (List.mem_cons_of_mem _ ha)

theorem foldl_met_suffix {f : Search → String → Search} (hf : ∀ s a, s.met <:+ (f s a).met)
    (ns : List String) (s : Search) : s.met <:+ (ns.foldl f s).met := by
  induction ns generalizing s with
  | nil => exact List.suffix_rfl
  | cons n ns ih => exact (hf s n).trans (ih _)

theorem visit_met (hm : name ∉ s.met) : (visit next (depth + 1) s name).met =
    ((next name).foldl (visit next depth) (s.meet name)).met := by
  rw [visit, if_neg hm, meet]

theorem met_suffix_visit (s : Search) (name : String) :
    s.met <:+ (visit next depth s name).met := by
  induction depth generalizing s name with
  | zero => exact List.suffix_rfl
  | succ depth ih =>
    by_cases hm : name ∈ s.met
    · rw [visit_of_mem hm]
    · rw [visit_met hm]
      exact (List.suffix_cons name s.met).trans (foldl_met_suffix ih _ (s.meet name))

def metSince (s s₁ : Search) : List String :=
  (s₁.met.take (s₁.met.length - s.met.length)).reverse

theorem metSince_of_append (h : s₁.met = l ++ s.met) : s.metSince s₁ = l.reverse := by
  rw [metSince, h, List.length_append, Nat.add_sub_cancel, List.take_left]

theorem met_visit_of_none (depth : Nat) (hm : name ∉ s.met)
    (hf : (next name).find? (· ∉ name :: s.met) = none) :
    (visit next (depth + 1) s name).met = name :: s.met := by
  have hall : ∀ b ∈ next name, b ∈ (s.meet name).met := by
    intro b hb
    have hin := List.find?_eq_none.mp hf b hb
    rwa [decide_eq_true_eq, Decidable.not_not] at hin
  rw [visit_met hm, foldl_visit_of_mem hall, meet]

theorem met_visit_of_some (depth : Nat) (hm : name ∉ s.met)
    (hf : (next name).find? (· ∉ name :: s.met) = some b) :
    b :: name :: s.met <:+ (visit next (depth + 2) s name).met := by
  obtain ⟨hb, before, after, hn, hbefore⟩ := List.find?_eq_some_iff_append.mp hf
  rw [decide_eq_true_eq] at hb
  have hall : ∀ c ∈ before, c ∈ (s.meet name).met := by
    intro c hc
    have hin := hbefore c hc
    rwa [Bool.not_eq_true', decide_eq_false_iff_not, Decidable.not_not] at hin
  have hfirst : b :: name :: s.met <:+ (visit next (depth + 1) (s.meet name) b).met := by
    rw [visit_met (s := s.meet name) hb]
    exact foldl_met_suffix met_suffix_visit _ ((s.meet name).meet b)
  rw [visit_met hm, hn, List.foldl_append, foldl_visit_of_mem hall, List.foldl_cons]
  exact hfirst.trans (foldl_met_suffix met_suffix_visit _ _)

/-- The second name met from a start is the first there that is yet to be met. -/
theorem second_metSince_visit (hm : name ∉ s.met) :
    (s.metSince (visit next (depth + 2) s name))[1]? =
      (next name).find? (· ∉ name :: s.met) := by
  cases hf : (next name).find? (· ∉ name :: s.met) with
  | none =>
    rw [metSince_of_append (l := [name]) (met_visit_of_none _ hm hf)]
    rfl
  | some b =>
    obtain ⟨l, hl⟩ := met_visit_of_some depth hm hf
    rw [metSince_of_append (l := l ++ [b, name]) (by rw [← hl]; simp)]
    simp

end Search

namespace Graph

/-- Sweeps against the edges from each name in turn, never over a name twice: the
second name that is met from one start. -/
def swept? (g : Graph) (s : Search) : List String → Option String
  | [] => none
  | name :: rest =>
    let s₁ := Search.visit g.holders (g.nodes.length + 2) s name
    match (s.metSince s₁)[1]? with
    | some second => some second
    | none => g.swept? s₁ rest

/-- Sweeping finds the edges that lead backward. -/
theorem swept?_eq_backward? (g : Graph) (s : Search) (rest : List String)
    (h : (s.met.reverse ++ rest).Nodup) : g.swept? s rest = g.backward? s.met rest := by
  induction rest generalizing s with
  | nil => rfl
  | cons name rest ih =>
    have hm : name ∉ s.met := fun hm =>
      List.disjoint_of_nodup_append h (List.mem_reverse.mpr hm) List.mem_cons_self
    rw [swept?, backward?, Search.second_metSince_visit hm]
    cases hf : (g.holders name).find? (· ∉ name :: s.met) with
    | some holder => rfl
    | none =>
      have hmet := Search.met_visit_of_none (g.nodes.length + 1) hm hf
      rw [← hmet]
      refine ih _ ?_
      rwa [hmet, List.reverse_cons, List.append_assoc, List.singleton_append]

theorem swept?_finishOrder (g : Graph) : g.swept? {} g.finishOrder = g.cycle? :=
  g.swept?_eq_backward? {} g.finishOrder g.finishOrder_ok.2.1

end Graph

end SceneDiagram.Hierarchy
