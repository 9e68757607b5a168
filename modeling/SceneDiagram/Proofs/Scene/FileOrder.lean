import Mathlib.Data.List.Induction
import SceneDiagram.Proofs.Generation.Reporting
import SceneDiagram.Proofs.Section.Places
import SceneDiagram.Proofs.Section.Within

/-!
# Remarks in file order

`Scene.inFileOrder`: the remarks on a scene come in the order in which their places stand
in the text. Each section is remarked on at most once, at a place of its own, and its parts
stand in front of those of the sections behind it.
-/

namespace SceneDiagram

-- ---------------------------------------------------------------------------
-- Where sections stand
-- ---------------------------------------------------------------------------

def Section.starts (s : Section) : List Nat :=
  s.tag.span.start :: (s.attributes ++ s.properties).map (·.value.span.start)

theorem Section.starts_eq (s : Section) : s.starts = s.places.map (·.start) := by
  simp [starts, places, Function.comp_def]

/-- All parts of a section begin in front of all parts of those behind it. -/
theorem Section.starts_increasing (hread : Tokens.read source = .ok ts)
    (hsections : Section.ofTokens ts = .ok sections) :
    sections.Pairwise fun s s' => ∀ m ∈ s.starts, ∀ n ∈ s'.starts, m < n := by
  obtain ⟨hsolid, hapart⟩ := parts_ordered hread hsections
  rw [List.pairwise_map, List.pairwise_flatMap] at hapart
  refine hapart.2.imp_of_mem fun {s s'} hs hs' hbefore m hm n hn => ?_
  rw [starts_eq, List.mem_map] at hm hn
  obtain ⟨_, hm, rfl⟩ := hm
  obtain ⟨_, hn, rfl⟩ := hn
  obtain ⟨x, hx, rfl⟩ := exists_part hm
  obtain ⟨y, hy, rfl⟩ := exists_part hn
  have hlt := hsolid _ (List.mem_map_of_mem (List.mem_flatMap.mpr ⟨s, hs, hx⟩))
  exact Nat.lt_of_lt_of_le hlt (hbefore x hx y hy)

-- ---------------------------------------------------------------------------
-- What is remarked on
-- ---------------------------------------------------------------------------

def Diagnostic.InFileOrder (ds : List Diagnostic) : Prop :=
  ∃ starts : List Nat, ds.map (·.start?) = starts.map some ∧ starts.Pairwise (· < ·)

theorem Section.start_of_lookup? {s : Section} (h : s.lookup? key = some v) :
    v.span.start ∈ s.starts := by
  rw [starts_eq]
  exact List.mem_map_of_mem (place_of_lookup? h)

theorem Section.start_getD_mem {s : Section} (v : Option (Spanned Value))
    (h : ∀ x, v = some x → x.span.start ∈ s.starts) :
    ((v.map (·.span)).getD s.tag.span).start ∈ s.starts := by
  cases v with
  | none => exact List.mem_cons_self
  | some x => exact h x rfl

namespace Draft

def RemarksOn (s : Section) (d d₁ : Draft) : Prop :=
  ∃ w, d₁.warnings = d.warnings ++ [w] ∧ ∃ n ∈ s.starts, w.start? = some n

theorem addResource_remark (d : Draft) (s : Section) :
    (d.addResource s).warnings = d.warnings ∨ RemarksOn s d (d.addResource s) := by
  unfold addResource
  split
  · simp only
    split
    · refine .inr ⟨_, rfl, _, ?_, rfl⟩
      refine Section.start_getD_mem _ fun v hv => ?_
      have hid : s.lookup? "id" = some v := by
        rw [Section.lookup?, hv]
        rfl
      exact Section.start_of_lookup? hid
    · split <;> exact .inl rfl
  · exact .inl rfl

theorem addNode_remark (d : Draft) (s : Section) :
    (d.addNode s).warnings = d.warnings ∨ RemarksOn s d (d.addNode s) := by
  unfold addNode
  split
  · exact .inl rfl
  · split
    · simp only [addRoot]
      split
      · exact .inl rfl
      · refine .inr ⟨_, rfl, _, ?_, rfl⟩
        exact Section.start_getD_mem _ fun v hv => Section.start_of_lookup? hv
    · next parent hparent =>
      simp only [addBelow]
      split
      · exact .inl rfl
      · exact .inr ⟨_, rfl, _, Section.start_of_lookup? hparent, rfl⟩

/-- A section is remarked on at most once, at one of its parts. -/
theorem add_remark (d : Draft) (s : Section) :
    (d.add s).warnings = d.warnings ∨ RemarksOn s d (d.add s) := by
  unfold add
  split
  · exact addResource_remark d s
  · split
    · exact addNode_remark d s
    · exact .inl rfl

theorem foldl_add_remarks {sections : List Section}
    (h : sections.Pairwise fun s s' => ∀ m ∈ s.starts, ∀ n ∈ s'.starts, m < n) :
    ∃ starts : List Nat, (sections.foldl add {}).warnings.map (·.start?) = starts.map some ∧
      starts.Pairwise (· < ·) ∧ ∀ n ∈ starts, ∃ s ∈ sections, n ∈ s.starts := by
  induction sections using List.reverseRecOn with
  | nil => exact ⟨[], rfl, .nil, nofun⟩
  | append_singleton sections s ih =>
    obtain ⟨hbefore, -, hlast⟩ := List.pairwise_append.mp h
    obtain ⟨starts, heq, hpairs, hparts⟩ := ih hbefore
    have hmem {n : Nat} (hn : n ∈ starts) : ∃ s' ∈ sections ++ [s], n ∈ s'.starts := by
      obtain ⟨s', hs', hn⟩ := hparts n hn
      exact ⟨s', List.mem_append_left _ hs', hn⟩
    rw [List.foldl_append, List.foldl_cons, List.foldl_nil]
    rcases add_remark (sections.foldl add {}) s with hsame | ⟨w, hw, n, hn, hstart⟩
    · exact ⟨starts, by rw [hsame, heq], hpairs, fun n => hmem⟩
    · refine ⟨starts ++ [n], by simp [hw, heq, hstart], ?_, ?_⟩
      · refine List.pairwise_append.mpr ⟨hpairs, List.pairwise_singleton _ _, fun m hm => ?_⟩
        obtain ⟨s', hs', hm⟩ := hparts m hm
        simpa using hlast s' hs' s (List.mem_singleton_self s) m hm n hn
      · refine List.forall_mem_append.mpr ⟨fun m => hmem, fun m hm => ?_⟩
        rw [List.mem_singleton.mp hm]
        exact ⟨s, List.mem_append_right _ (List.mem_singleton_self s), hn⟩

end Draft

theorem Scene.inFileOrder (h : Scene.read source = .ok (scene, diagnostics)) :
    Diagnostic.InFileOrder diagnostics := by
  obtain ⟨sections, hsections, hscene⟩ := map_ok.mp h
  obtain ⟨ts, hts, hread⟩ := Grammar.readAll_ok.mp hsections
  obtain ⟨starts, heq, hpairs, -⟩ :=
    Draft.foldl_add_remarks (Section.starts_increasing hts hread)
  cases hscene
  exact ⟨starts, heq, hpairs⟩

end SceneDiagram
