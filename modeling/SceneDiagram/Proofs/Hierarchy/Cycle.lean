import SceneDiagram.Proofs.Hierarchy.Way

/-!
# The cycle check is sound and complete

`cycleCheck_iff`: a wired graph passes the check exactly if no way along child edges
leads back to where it began, and the node that a failed check names lies on
such a way. The names met but not finished are the way down to the name being
visited, so an edge to one of them closes a cycle; all other edges lead to names
that have finished.
-/

open Relation (ReflTransGen TransGen)

namespace SceneDiagram.Hierarchy

-- ---------------------------------------------------------------------------
-- The order of finishing
-- ---------------------------------------------------------------------------

namespace Search

variable {next : String → List String} {s s₁ s₂ : Search}

def Leads (next : String → List String) (a b : String) : Prop := b ∈ next a

/-- Every edge leads to a name further back in the list, or else the name that it
leads to leads back to its source. -/
def Sorted (next : String → List String) : List String → Prop
  | [] => True
  | a :: l => (∀ b ∈ next a, b ∈ l ∨ ReflTransGen (Leads next) b a) ∧ Sorted next l

theorem Sorted.split (h : Sorted next (pre ++ a :: post)) :
    ∀ b ∈ next a, b ∈ post ∨ ReflTransGen (Leads next) b a := by
  induction pre with
  | nil => exact h.1
  | cons _ pre ih => exact ih h.2

/-- What holds of a search at all times. -/
structure Good (next : String → List String) (s : Search) : Prop where
  sorted : Sorted next s.finished
  nodup : s.finished.Nodup
  met : ∀ a ∈ s.finished, a ∈ s.met

/-- A search that went on from another and came back: it finished all that it met. -/
structure Extends (s s₁ : Search) : Prop where
  met : ∀ a ∈ s.met, a ∈ s₁.met
  finished : ∀ a ∈ s.finished, a ∈ s₁.finished
  fresh : ∀ a ∈ s₁.finished, a ∈ s.finished ∨ a ∉ s.met
  done : ∀ a ∈ s₁.met, a ∈ s.met ∨ a ∈ s₁.finished

theorem Extends.refl (s : Search) : Extends s s :=
  ⟨fun _ h => h, fun _ h => h, fun _ h => .inl h, fun _ h => .inl h⟩

theorem Extends.trans (h : Extends s s₁) (h₁ : Extends s₁ s₂) : Extends s s₂ where
  met a ha := h₁.met a (h.met a ha)
  finished a ha := h₁.finished a (h.finished a ha)
  fresh a ha := by
    rcases h₁.fresh a ha with ha | ha
    · exact h.fresh a ha
    · exact .inr fun hm => ha (h.met a hm)
  done a ha := by
    rcases h₁.done a ha with ha | ha
    · exact (h.done a ha).imp_right (h₁.finished a)
    · exact .inr ha

/-- The names under way, met but not finished, all lead to `name`. -/
def UnderWay (next : String → List String) (s : Search) (name : String) : Prop :=
  ∀ a ∈ s.met, a ∉ s.finished → ReflTransGen (Leads next) a name

theorem UnderWay.extends (h : UnderWay next s name) (he : Extends s s₁) :
    UnderWay next s₁ name := by
  intro a ha hf
  have hm := (he.done a ha).resolve_right hf
  exact h a hm fun hs => hf (he.finished a hs)

def unmet (names : List String) (s : Search) : Nat := (names.filter (· ∉ s.met)).length

theorem unmet_le (he : Extends s s₁) : unmet names s₁ ≤ unmet names s := by
  simp only [unmet, ← List.countP_eq_length_filter]
  refine List.countP_mono_left fun a _ ha => ?_
  simp only [decide_eq_true_eq] at ha ⊢
  exact fun hm => ha (he.met a hm)

def meet (s : Search) (name : String) : Search := { s with met := name :: s.met }

theorem unmet_meet (hn : name ∈ names) (hm : name ∉ s.met) :
    unmet names (s.meet name) < unmet names s := by
  have hsplit : names.filter (· ∉ name :: s.met) =
      (names.filter (· ∉ s.met)).filter (· ≠ name) := by
    rw [List.filter_filter]
    exact List.filter_congr fun a _ => by simp
  rw [unmet, unmet, meet, hsplit, List.length_filter_lt_length_iff_exists]
  exact ⟨name, by simp [hn, hm], by simp⟩

/-- What a visit achieves where it may go `depth` steps down. -/
def VisitOk (next : String → List String) (names : List String) (depth : Nat) : Prop :=
  ∀ s name, name ∈ names → Good next s → UnderWay next s name → unmet names s ≤ depth →
    Good next (visit next depth s name) ∧ Extends s (visit next depth s name) ∧
      name ∈ (visit next depth s name).met

theorem foldl_visit {ns : List String} (hv : VisitOk next names depth) (hs : Good next s)
    (hns : ∀ a ∈ ns, a ∈ names) (hu : ∀ a ∈ ns, UnderWay next s a)
    (hd : unmet names s ≤ depth) :
    Good next (ns.foldl (visit next depth) s) ∧ Extends s (ns.foldl (visit next depth) s) ∧
      ∀ a ∈ ns, a ∈ (ns.foldl (visit next depth) s).met := by
  induction ns generalizing s with
  | nil => exact ⟨hs, .refl s, by simp⟩
  | cons n ns ih =>
    obtain ⟨hg, he, hm⟩ := hv s n (hns n List.mem_cons_self) hs (hu n List.mem_cons_self) hd
    obtain ⟨hg₁, he₁, hm₁⟩ := ih hg (fun a ha => hns a (List.mem_cons_of_mem _ ha))
      (fun a ha => (hu a (List.mem_cons_of_mem _ ha)).extends he) (Nat.le_trans (unmet_le he) hd)
    refine ⟨hg₁, he.trans he₁, fun a ha => ?_⟩
    rcases List.mem_cons.mp ha with rfl | ha
    · exact he₁.met _ hm
    · exact hm₁ a ha

theorem Good.meet (h : Good next s) : Good next (s.meet name) :=
  ⟨h.sorted, h.nodup, fun a ha => List.mem_cons_of_mem _ (h.met a ha)⟩

theorem UnderWay.meet (h : UnderWay next s name) (hb : b ∈ next name) :
    UnderWay next (s.meet name) b := by
  intro a ha hf
  rcases List.mem_cons.mp ha with rfl | ha
  · exact .single hb
  · exact (h a ha hf).tail hb

def finish (s : Search) (name : String) : Search := { s with finished := name :: s.finished }

theorem Good.finish (h : Good next s) (hs : Good next s₁) (he : Extends (s.meet name) s₁)
    (hm : name ∉ s.met) (hu : UnderWay next s name) (hb : ∀ b ∈ next name, b ∈ s₁.met) :
    Good next (s₁.finish name) where
  sorted := by
    refine ⟨fun b hn => ?_, hs.sorted⟩
    rcases he.done b (hb b hn) with hb | hb
    · rcases List.mem_cons.mp hb with rfl | hb
      · exact .inr .refl
      · by_cases hf : b ∈ s.finished
        · exact .inl (he.finished b hf)
        · exact .inr (hu b hb hf)
    · exact .inl hb
  nodup := by
    refine List.nodup_cons.mpr ⟨fun hf => ?_, hs.nodup⟩
    rcases he.fresh name hf with hf | hf
    · exact hm (h.met name hf)
    · exact hf List.mem_cons_self
  met a ha := by
    rcases List.mem_cons.mp ha with rfl | ha
    · exact he.met _ List.mem_cons_self
    · exact hs.met a ha

theorem Extends.finish (he : Extends (s.meet name) s₁) (hm : name ∉ s.met) :
    Extends s (s₁.finish name) where
  met a ha := he.met a (List.mem_cons_of_mem _ ha)
  finished a ha := List.mem_cons_of_mem _ (he.finished a ha)
  fresh a ha := by
    rcases List.mem_cons.mp ha with rfl | ha
    · exact .inr hm
    · exact (he.fresh a ha).imp_right fun hn hs => hn (List.mem_cons_of_mem _ hs)
  done a ha := by
    rcases he.done a ha with ha | ha
    · rcases List.mem_cons.mp ha with rfl | ha
      · exact .inr List.mem_cons_self
      · exact .inl ha
    · exact .inr (List.mem_cons_of_mem _ ha)

theorem visit_ok (hnext : ∀ a, ∀ b ∈ next a, b ∈ names) (depth : Nat) :
    VisitOk next names depth := by
  induction depth with
  | zero =>
    intro s name hn hs _ hd
    have hm : name ∈ s.met := Decidable.byContradiction fun hm =>
      Nat.not_lt_zero _ (Nat.lt_of_lt_of_le (unmet_meet hn hm) hd)
    exact ⟨hs, .refl s, hm⟩
  | succ depth ih =>
    intro s name hn hs hu hd
    rw [visit]
    split
    · next hm => exact ⟨hs, .refl s, hm⟩
    · next hm =>
      have hd : unmet names (s.meet name) ≤ depth :=
        Nat.le_of_lt_succ (Nat.lt_of_lt_of_le (unmet_meet hn hm) hd)
      obtain ⟨hg, he, hb⟩ := foldl_visit ih hs.meet (hnext name) (fun b hb => hu.meet hb) hd
      exact ⟨hs.finish hg he hm hu hb, he.finish hm, he.met _ List.mem_cons_self⟩

end Search

-- ---------------------------------------------------------------------------
-- The order that a graph is searched in
-- ---------------------------------------------------------------------------

namespace Graph

open Search (Leads Sorted)

variable {g : Graph}

/-- The search from every node finishes them all, each once. -/
theorem finishOrder_ok (g : Graph) :
    Sorted g.next g.finishOrder ∧ g.finishOrder.Nodup ∧ ∀ a ∈ g.names, a ∈ g.finishOrder := by
  have hd : Search.unmet g.names {} ≤ g.nodes.length :=
    Nat.le_trans (List.length_filter_le _ _) (Nat.le_of_eq (List.length_map _))
  have hs : Search.Good g.next {} := ⟨trivial, .nil, fun a ha => by cases ha⟩
  obtain ⟨hg, he, hm⟩ := Search.foldl_visit
    (Search.visit_ok (fun a b => mem_names_of_mem_next) g.nodes.length) hs (fun a ha => ha)
    (fun a _ b hb => by cases hb) hd
  refine ⟨hg.sorted, hg.nodup, fun a ha => ?_⟩
  exact (he.done a (hm a ha)).resolve_left List.not_mem_nil

theorem backward?_some (h : g.backward? before rest = some holder) :
    ∃ pre name post, rest = pre ++ name :: post ∧ g.Child holder name ∧ holder ≠ name ∧
      holder ∉ pre ∧ holder ∉ before := by
  induction rest generalizing before with
  | nil => cases h
  | cons name rest ih =>
    rw [backward?] at h
    split at h
    · next hf =>
      cases h
      have hne := List.find?_some hf
      simp only [decide_eq_true_eq, List.mem_cons, not_or] at hne
      exact ⟨[], name, rest, rfl, mem_holders.mp (List.mem_of_find?_eq_some hf), hne.1,
        List.not_mem_nil, hne.2⟩
    · obtain ⟨pre, name₁, post, rfl, hc, hne, hp, hb⟩ := ih h
      rw [List.mem_cons, not_or] at hb
      refine ⟨name :: pre, name₁, post, rfl, hc, hne, ?_, hb.2⟩
      rw [List.mem_cons, not_or]
      exact ⟨hb.1, hp⟩

theorem backward?_none (h : g.backward? before (pre ++ name :: post) = none)
    (hc : g.Child holder name) : holder = name ∨ holder ∈ pre ∨ holder ∈ before := by
  induction pre generalizing before with
  | nil =>
    rw [List.nil_append, backward?] at h
    split at h
    · cases h
    · next hf =>
      have hin := List.find?_eq_none.mp hf holder (mem_holders.mpr hc)
      simp only [decide_eq_true_eq, Decidable.not_not, List.mem_cons] at hin
      exact hin.imp_right .inr
  | cons first pre ih =>
    rw [List.cons_append, backward?] at h
    split at h
    · cases h
    · rcases ih h with rfl | hp | hb
      · exact .inl rfl
      · exact .inr (.inl (List.mem_cons_of_mem _ hp))
      · rcases List.mem_cons.mp hb with rfl | hb
        · exact .inr (.inl List.mem_cons_self)
        · exact .inr (.inr hb)

/-- An edge back to a name that finished later closes a cycle. -/
theorem Proper.cycle?_some (hg : g.Proper) (h : g.cycle? = some name) :
    TransGen g.Child name name := by
  obtain ⟨hsorted, hnodup, hall⟩ := g.finishOrder_ok
  obtain ⟨pre, child, post, hl, hc, hne, hpre, -⟩ := backward?_some h
  -- the edge leads backward: its source comes after the child
  have hpost : name ∈ post := by
    have hmem := hall name hc.mem_names
    rw [hl, List.mem_append, List.mem_cons] at hmem
    exact (hmem.resolve_left hpre).resolve_left hne
  obtain ⟨mid, tail, rfl⟩ := List.append_of_mem hpost
  have hlist : g.finishOrder = (pre ++ child :: mid) ++ name :: tail := by simp [hl]
  rw [hlist] at hsorted hnodup
  have htail : child ∉ tail := fun ht =>
    List.disjoint_of_nodup_append hnodup (by simp) (List.mem_cons_of_mem _ ht)
  have hback : ReflTransGen (Leads g.next) child name :=
    (hsorted.split child (hg.mem_next.mpr hc)).resolve_left htail
  exact .head' hc (ReflTransGen.mono (fun _ _ => hg.mem_next.mp) _ _ hback)

/-- Where no edge leads backward, all lead strictly forward. -/
theorem Proper.idxOf_lt (hg : g.Proper) (h : g.cycle? = none) (hc : g.Child a b) :
    g.finishOrder.idxOf a < g.finishOrder.idxOf b := by
  obtain ⟨-, hnodup, hall⟩ := g.finishOrder_ok
  obtain ⟨pre, post, hl⟩ := List.append_of_mem (hall b (hg.mem_names_of_child hc))
  rw [cycle?, hl] at h
  have hpre : a ∈ pre := by
    simpa [hg.ne_of_child hc] using backward?_none h hc
  have hb : b ∉ pre := fun hb => by
    rw [hl] at hnodup
    exact List.disjoint_of_nodup_append hnodup hb List.mem_cons_self
  rw [hl, List.idxOf_append, if_pos hpre, List.idxOf_append, if_neg hb, List.idxOf_cons_self,
    Nat.zero_add]
  exact List.idxOf_lt_length_of_mem hpre

theorem Proper.cycle?_none (hg : g.Proper) (h : g.cycle? = none) (name : String) :
    ¬ TransGen g.Child name name := by
  have hlt : ∀ b, TransGen g.Child name b →
      g.finishOrder.idxOf name < g.finishOrder.idxOf b := by
    intro b hb
    induction hb with
    | single hc => exact hg.idxOf_lt h hc
    | tail _ hc ih => exact Nat.lt_trans ih (hg.idxOf_lt h hc)
  exact fun hcycle => Nat.lt_irrefl _ (hlt name hcycle)

end Graph

/-- The check finds a cycle if there is one, and names a node that lies on it. -/
theorem cycleCheck_iff {r : Registry} (h : r.Built) (interfacePrefix : String)
    (analysis : AnalysisConfig) :
    (((r.graph interfacePrefix).wire analysis).cycle? = none ↔
        ∀ name, ¬ TransGen ((r.graph interfacePrefix).wire analysis).Child name name) ∧
      ∀ name, ((r.graph interfacePrefix).wire analysis).cycle? = some name →
        TransGen ((r.graph interfacePrefix).wire analysis).Child name name := by
  have hg := (h.unwired_graph interfacePrefix).proper_wire analysis
  refine ⟨⟨hg.cycle?_none, fun hnone => ?_⟩, fun name => hg.cycle?_some⟩
  rw [Option.eq_none_iff_forall_ne_some]
  exact fun name hname => hnone name (hg.cycle?_some hname)

theorem cycleCheck_iff_mutual : ∃ r : Registry, r.Built ∧
    ((r.graph "I").wire {}).cycle? = some "Player" ∧
    TransGen ((r.graph "I").wire {}).Child "Player" "Player" := by
  have hb := ((Registry.Built.empty ⟨"p"⟩).addScene ⟨"p/Level.tscn"⟩
      { root := some { name := "Level", typeName := "Node", children := [
        { name := "Player", typeName := "Node" }] } }).addScene ⟨"p/Player.tscn"⟩
      { root := some { name := "Player", typeName := "Node", children := [
        { name := "Level", typeName := "Node" }] } }
  exact ⟨_, hb, by decide +kernel, (cycleCheck_iff hb "I" {}).2 "Player" (by decide +kernel)⟩

end SceneDiagram.Hierarchy
