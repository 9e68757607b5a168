import SceneDiagram.Proofs.Path.Trail

/-!
# Spellings with one suffix

`same_append`: texts that differ spell different paths with a suffix behind them,
whatever the suffix is, if each of their pieces behind the first slash is a step.
-/

namespace SceneDiagram.Path

open Text

variable {p : Path} {piece first : String} {rest parts : List String}

-- ---------------------------------------------------------------------------
-- Steps of a split text
-- ---------------------------------------------------------------------------

/-- A piece that is a step wherever it stands in a path. -/
def IsStep (piece : String) : Prop := piece ≠ "" ∧ piece ≠ "."

theorem IsStep.exists_step (h : IsStep piece) :
    ∃ c, Component.ofPiece? piece = some c ∧ c.text = piece := by
  by_cases hup : piece = ".."
  · exact ⟨.up, by simp [Component.ofPiece?, hup], hup.symm⟩
  · exact ⟨.name piece, by simp [Component.ofPiece?, h.1, h.2, hup], rfl⟩

theorem Component.IsInner.isStep {c : Component} (h : c.IsInner) : IsStep c.text := by
  refine ⟨h.text_ne_empty, ?_⟩
  cases h with
  | up => decide
  | name h => exact h.ne_here

theorem IsStep.append (h : IsStep piece) (s : String) : IsStep (piece ++ s) := by
  constructor
  · intro hempty
    exact h.1 (String.append_eq_empty_iff.mp hempty).1
  · intro hhere
    have hlist : piece.toList ++ s.toList = ['.'] := by
      simpa using congrArg String.toList hhere
    rcases List.append_eq_singleton_iff.mp hlist with ⟨hnil, -⟩ | ⟨hpoint, -⟩
    · exact h.1 (String.toList_eq_nil_iff.mp hnil)
    · exact h.2 (String.toList_inj.mp hpoint)

theorem map_text_steps (h : ∀ p ∈ parts, IsStep p) :
    (parts.filterMap Component.ofPiece?).map Component.text = parts := by
  induction parts with
  | nil => rfl
  | cons p parts ih =>
    obtain ⟨hp, hparts⟩ := List.forall_mem_cons.mp h
    obtain ⟨c, hc, htext⟩ := hp.exists_step
    rw [List.filterMap_cons_some hc, List.map_cons, htext, ih hparts]

/-- The step that the first piece of a text stands for. A leading slash or point
counts there. -/
def opening (piece : String) : Component :=
  if piece = "" then .root
  else if piece = "." then .here
  else if piece = ".." then .up
  else .name piece

theorem opening_inj {a b : String} (h : opening a = opening b) : a = b := by
  grind [opening]

theorem Component.IsInner.opening {c : Component} (h : c.IsInner) : opening c.text = c := by
  cases h with
  | up => rfl
  | name h => simp [Path.opening, Component.text, h.ne_empty, h.ne_here, h.ne_up]

theorem isAbsolute_iff_of_split (h : split '/' p.text = first :: rest) (hne : p.text ≠ "") :
    p.isAbsolute ↔ first = "" := by
  have hslash : '/' ∉ first.toList := not_mem_of_mem_split (h ▸ List.mem_cons_self)
  have htext : p.text = join (String.singleton '/') (first :: rest) := by rw [← h, join_split]
  obtain ⟨text⟩ := p
  subst htext
  cases rest with
  | nil =>
    have hfirst : first ≠ "" := hne
    exact ⟨fun habsolute => absurd habsolute (not_isAbsolute_of_noSlash hslash),
      fun hempty => absurd hempty hfirst⟩
  | cons next rest =>
    by_cases hfirst : first = ""
    · simp [join, hfirst, isAbsolute]
    · rw [join, String.append_assoc, isAbsolute_append hfirst]
      exact ⟨fun habsolute => absurd habsolute (not_isAbsolute_of_noSlash hslash),
        fun hempty => absurd hempty hfirst⟩

theorem components_of_split (h : split '/' p.text = first :: rest) (hne : p.text ≠ "") :
    p.components = opening first :: rest.filterMap Component.ofPiece? := by
  have habsolute := isAbsolute_iff_of_split h hne
  rw [components_eq, front, trail, h, opening]
  by_cases hempty : first = ""
  · simp [habsolute, hempty, Component.ofPiece?]
  · by_cases hhere : first = "."
    · simp [habsolute, hhere, Component.ofPiece?]
    · by_cases hup : first = ".."
      · simp [habsolute, hup, Component.ofPiece?]
      · simp [habsolute, hempty, hhere, hup, Component.ofPiece?]

theorem components_eq_nil : p.components = [] ↔ p.text = "" := by
  constructor
  · intro hnil
    by_cases hne : p.text = ""
    · exact hne
    · obtain ⟨first, rest, h⟩ := List.exists_cons_of_ne_nil (split_ne_nil '/' p.text)
      rw [components_of_split h hne] at hnil
      cases hnil
  · intro hempty
    obtain ⟨text⟩ := p
    cases hempty
    decide

-- ---------------------------------------------------------------------------
-- Tidy texts
-- ---------------------------------------------------------------------------

def IsTidy (s : String) : Prop := ∀ piece ∈ (split '/' s).tail, IsStep piece

theorem isTidy_of_noSlash (h : '/' ∉ s.toList) : IsTidy s := by
  simp [IsTidy, split_of_not_mem h]

theorem isTidy_slashed {steps : List Component} (h : ∀ c ∈ steps, c.IsInner) :
    IsTidy (slashed steps) := by
  cases steps with
  | nil => exact isTidy_of_noSlash (by decide)
  | cons c steps =>
    intro piece hpiece
    rw [split_slashed h (List.cons_ne_nil c steps), List.map_cons, List.tail_cons] at hpiece
    obtain ⟨d, hd, rfl⟩ := List.mem_map.mp hpiece
    exact (h d (List.mem_cons_of_mem c hd)).isStep

theorem IsTidy.exists_split_append (hx : IsTidy x) (hs : split '/' s = f :: rest) :
    ∃ lead l first steps, split '/' x = lead ++ [l] ∧ lead ++ [l ++ f] = first :: steps ∧
      split '/' (x ++ s) = first :: (steps ++ rest) ∧ ∀ p ∈ steps, IsStep p := by
  obtain ⟨lead, l, f', rest', hlead, hs', hwhole⟩ := Text.exists_split_append '/' x s
  cases hs.symm.trans hs'
  cases lead with
  | nil => exact ⟨[], l, l ++ f, [], hlead, rfl, hwhole, by simp⟩
  | cons p lead =>
    refine ⟨p :: lead, l, p, lead ++ [l ++ f], hlead, rfl, by simp [hwhole], ?_⟩
    rw [IsTidy, hlead] at hx
    have hl : IsStep l := hx l (by simp)
    intro q hq
    rcases List.mem_append.mp hq with hq | hq
    · exact hx q (by simp [hq])
    · rw [List.mem_singleton.mp hq]
      exact hl.append f

theorem same_append (hx : IsTidy x) (hy : IsTidy y)
    (h : (Path.mk (x ++ s)).same ⟨y ++ s⟩) : x = y := by
  have hsame : components ⟨x ++ s⟩ = components ⟨y ++ s⟩ := eq_of_beq h
  have hempty : x ++ s = "" ↔ y ++ s = "" := by
    rw [← components_eq_nil (p := ⟨x ++ s⟩), hsame, components_eq_nil]
  by_cases hne : x ++ s = ""
  · rw [(String.append_eq_empty_iff.mp hne).1,
      (String.append_eq_empty_iff.mp (hempty.mp hne)).1]
  · obtain ⟨f, rest, hs⟩ := List.exists_cons_of_ne_nil (split_ne_nil '/' s)
    obtain ⟨lead, l, first, steps, hsplit, hfront, hwhole, hsteps⟩ := hx.exists_split_append hs
    obtain ⟨lead', l', first', steps', hsplit', hfront', hwhole', hsteps'⟩ :=
      hy.exists_split_append hs
    rw [components_of_split hwhole hne, components_of_split hwhole' (mt hempty.mpr hne),
      List.filterMap_append, List.filterMap_append] at hsame
    obtain ⟨hfirst, hrest⟩ := List.cons.inj hsame
    have hmiddle : steps = steps' := by
      rw [← map_text_steps hsteps, List.append_cancel_right hrest, map_text_steps hsteps']
    rw [opening_inj hfirst, hmiddle, ← hfront'] at hfront
    obtain ⟨rfl, hlast⟩ := List.append_inj' hfront rfl
    obtain rfl : l = l' := String.append_left_inj f |>.mp (List.cons.inj hlast).1
    rw [← join_split '/' x, ← join_split '/' y, hsplit, hsplit']

end SceneDiagram.Path
