import SceneDiagram.Text.Split

/-!
# Laws of splitting and joining

`exists_split_append`: two texts one behind the other share one piece, the last
of the first and the first of the second. `split_join`: joining pieces without
separators and splitting again gives the pieces.
-/

namespace SceneDiagram.Text

variable {sep : Char}

-- ---------------------------------------------------------------------------
-- Runs of characters
-- ---------------------------------------------------------------------------

theorem takeWhile_run {p : Char → Bool} {w rest : List Char} (hw : ∀ c ∈ w, p c)
    (hrest : ∀ c ∈ rest.head?, p c = false) : (w ++ rest).takeWhile p = w := by
  have hstop : rest.takeWhile p = [] := by
    cases rest with
    | nil => rfl
    | cons c rest => simp [hrest c rfl]
  rw [List.takeWhile_append_of_pos hw, hstop, List.append_nil]

theorem exists_run (p : Char → Bool) (cs : List Char) : ∃ w rest, cs = w ++ rest ∧
    (∀ c ∈ w, p c) ∧ (∀ c ∈ rest.head?, p c = false) ∧ cs.takeWhile p = w := by
  refine ⟨cs.takeWhile p, cs.dropWhile p, List.takeWhile_append_dropWhile.symm,
    List.all_eq_true.mp List.all_takeWhile, fun c hc => ?_, rfl⟩
  have := List.head?_dropWhile_not p cs
  rwa [Option.mem_def.mp hc] at this

-- ---------------------------------------------------------------------------
-- Pieces
-- ---------------------------------------------------------------------------

theorem pieces_cons (h : c ≠ sep) (hp : pieces sep cs = p :: ps) :
    pieces sep (c :: cs) = (c :: p) :: ps := by
  simp [pieces, h, hp]

theorem exists_pieces_cons (sep : Char) (cs : List Char) : ∃ p ps, pieces sep cs = p :: ps := by
  cases h : pieces sep cs with
  | nil => exact absurd h (pieces_ne_nil sep cs)
  | cons p ps => exact ⟨p, ps, rfl⟩

theorem pieces_append_sep (a b : List Char) :
    pieces sep (a ++ sep :: b) = pieces sep a ++ pieces sep b := by
  induction a with
  | nil => simp [pieces]
  | cons c a ih =>
    by_cases h : c = sep
    · simp [pieces, h, ih]
    · obtain ⟨p, ps, hp⟩ := exists_pieces_cons sep a
      rw [List.cons_append, pieces_cons h (by rw [ih, hp, List.cons_append]), pieces_cons h hp,
        List.cons_append]

theorem pieces_of_not_mem (h : sep ∉ cs) : pieces sep cs = [cs] := by
  induction cs with
  | nil => rfl
  | cons c cs ih =>
    simp only [List.mem_cons, not_or] at h
    exact pieces_cons (Ne.symm h.1) (ih h.2)

theorem not_mem_of_mem_pieces (h : p ∈ pieces sep cs) : sep ∉ p := by
  induction cs generalizing p with
  | nil => simp_all [pieces]
  | cons c cs ih =>
    by_cases hc : c = sep
    · simp only [pieces, hc, if_true, List.mem_cons] at h
      rcases h with rfl | h
      · exact List.not_mem_nil
      · exact ih h
    · obtain ⟨q, qs, hq⟩ := exists_pieces_cons sep cs
      rw [pieces_cons hc hq, List.mem_cons] at h
      rcases h with rfl | h
      · rw [List.mem_cons, not_or]
        exact ⟨Ne.symm hc, ih (by simp [hq])⟩
      · exact ih (by simp [hq, h])

theorem exists_pieces_append (sep : Char) (a b : List Char) : ∃ lead l f rest,
    pieces sep a = lead ++ [l] ∧ pieces sep b = f :: rest ∧
      pieces sep (a ++ b) = lead ++ (l ++ f) :: rest := by
  obtain ⟨f, rest, hb⟩ := exists_pieces_cons sep b
  induction a with
  | nil => exact ⟨[], [], f, rest, rfl, hb, hb⟩
  | cons c a ih =>
    obtain ⟨lead, l, f, rest, ha, hb, hab⟩ := ih
    by_cases hc : c = sep
    · exact ⟨[] :: lead, l, f, rest, by simp [pieces, hc, ha], hb, by simp [pieces, hc, hab]⟩
    · cases lead with
      | nil => exact ⟨[], c :: l, f, rest, pieces_cons hc ha, hb, pieces_cons hc hab⟩
      | cons p lead =>
        exact ⟨(c :: p) :: lead, l, f, rest, pieces_cons hc ha, hb, pieces_cons hc hab⟩

-- ---------------------------------------------------------------------------
-- Texts
-- ---------------------------------------------------------------------------

theorem split_append (a b : String) :
    split sep (a ++ String.singleton sep ++ b) = split sep a ++ split sep b := by
  simp only [split, String.toList_append, String.toList_singleton, List.append_assoc,
    List.singleton_append, pieces_append_sep, List.map_append]

theorem split_of_not_mem (h : sep ∉ s.toList) : split sep s = [s] := by
  simp [split, pieces_of_not_mem h]

theorem not_mem_of_mem_split (h : p ∈ split sep s) : sep ∉ p.toList := by
  obtain ⟨cs, hcs, rfl⟩ := List.mem_map.mp h
  simpa using not_mem_of_mem_pieces hcs

theorem split_ne_nil (sep : Char) (s : String) : split sep s ≠ [] := by
  simpa [split] using pieces_ne_nil sep s.toList

theorem exists_split_append (sep : Char) (a b : String) : ∃ lead l f rest,
    split sep a = lead ++ [l] ∧ split sep b = f :: rest ∧
      split sep (a ++ b) = lead ++ (l ++ f) :: rest := by
  obtain ⟨lead, l, f, rest, ha, hb, hab⟩ := exists_pieces_append sep a.toList b.toList
  refine ⟨lead.map String.ofList, .ofList l, .ofList f, rest.map String.ofList, ?_, ?_, ?_⟩
  · simp [split, ha]
  · simp [split, hb]
  · simp [split, hab, String.ofList_append]

theorem join_cons {sep : String} (h : rest ≠ []) :
    join sep (s :: rest) = s ++ sep ++ join sep rest := by
  cases rest with
  | nil => exact absurd rfl h
  | cons t rest => rfl

theorem split_join (h : ∀ p ∈ ps, sep ∉ p.toList) (hne : ps ≠ []) :
    split sep (join (String.singleton sep) ps) = ps := by
  induction ps with
  | nil => exact absurd rfl hne
  | cons p ps ih =>
    obtain ⟨hp, hps⟩ := List.forall_mem_cons.mp h
    cases ps with
    | nil => exact split_of_not_mem hp
    | cons q ps =>
      rw [join_cons (List.cons_ne_nil q ps), split_append, split_of_not_mem hp,
        ih hps (List.cons_ne_nil q ps)]
      rfl

theorem join_empty_cons (s : String) (rest : List String) :
    join "" (s :: rest) = s ++ join "" rest := by
  cases rest with
  | nil => simp [join]
  | cons t rest => simp [join]

theorem join_empty_append (as bs : List String) :
    join "" (as ++ bs) = join "" as ++ join "" bs := by
  induction as with
  | nil => simp [join]
  | cons a as ih => rw [List.cons_append, join_empty_cons, ih, join_empty_cons, String.append_assoc]

theorem split_ended (sep : Char) (lines : List String) :
    split sep (join "" (lines.map (· ++ String.singleton sep))) =
      lines.flatMap (split sep) ++ [""] := by
  induction lines with
  | nil => rfl
  | cons line lines ih =>
    rw [List.map_cons, join_empty_cons, split_append, ih, List.flatMap_cons, List.append_assoc]

-- ---------------------------------------------------------------------------
-- Ends
-- ---------------------------------------------------------------------------

theorem eq_append_of_after? (h : after? lead text = some rest) : text = lead ++ rest := by
  induction lead generalizing text with
  | nil => exact Option.some.inj h
  | cons l lead ih =>
    cases text with
    | nil => cases h
    | cons c text =>
      simp only [after?] at h
      split at h
      · next heq => rw [heq, ih h, List.cons_append]
      · cases h

theorem eq_append_of_stripTail? (h : stripTail? tail s = some stem) : s = stem ++ tail := by
  obtain ⟨cs, hcs, rfl⟩ := Option.map_eq_some_iff.mp h
  have hs : s.toList = cs.reverse ++ tail.toList := by
    simpa using congrArg List.reverse (eq_append_of_after? hcs)
  exact String.toList_inj.mp (by simpa using hs)

def ending (s : String) : String := ((split '/' s).getLast?).getD ""

theorem join_concat {sep : String} (h : parts ≠ []) :
    join sep (parts ++ [l]) = join sep parts ++ sep ++ l := by
  induction parts with
  | nil => exact absurd rfl h
  | cons p parts ih =>
    cases parts with
    | nil => rfl
    | cons q parts =>
      rw [List.cons_append, join_cons (by simp), ih (List.cons_ne_nil q parts),
        join_cons (List.cons_ne_nil q parts)]
      simp only [String.append_assoc]

theorem parts_inj (hs : sep ∉ s.toList) (ht : sep ∉ t.toList)
    (h : a ++ String.singleton sep ++ s = b ++ String.singleton sep ++ t) : a = b ∧ s = t := by
  have hsplit := congrArg (split sep) h
  rw [split_append, split_append, split_of_not_mem hs, split_of_not_mem ht] at hsplit
  obtain ⟨hab, hst⟩ := List.append_inj' hsplit rfl
  exact ⟨by rw [← join_split sep a, hab, join_split], List.singleton_inj.mp hst⟩

theorem join_joined_cons (sep a b : String) (rest : List String) :
    join sep ((a ++ sep ++ b) :: rest) = join sep (a :: b :: rest) := by
  cases rest <;> simp [join, String.append_assoc]

theorem exists_join_concat (sep : String) (parts : List String) (l : String) :
    ∃ lead, join sep (parts ++ [l]) = lead ++ l := by
  by_cases h : parts = []
  · exact ⟨"", by simp [h, join]⟩
  · exact ⟨join sep parts ++ sep, join_concat h⟩

theorem split_concat (s : String) : ∃ parts, split '/' s = parts ++ [ending s] := by
  obtain ⟨parts, l, h⟩ : ∃ parts l, split '/' s = parts ++ [l] :=
    ⟨_, _, (List.dropLast_concat_getLast (split_ne_nil '/' s)).symm⟩
  exact ⟨parts, by simp [ending, h]⟩

theorem exists_ending (s : String) : ∃ lead, s = lead ++ ending s := by
  obtain ⟨parts, hparts⟩ := split_concat s
  obtain ⟨lead, hlead⟩ := exists_join_concat (String.singleton '/') parts (ending s)
  exact ⟨lead, by rw [← hlead, ← hparts, join_split]⟩

theorem exists_ending_append (s t : String) : ∃ lead, ending (s ++ t) = lead ++ ending t := by
  obtain ⟨lead, l, f, rest, -, ht, hst⟩ := exists_split_append '/' s t
  cases rest with
  | nil => exact ⟨l, by simp [ending, hst, ht]⟩
  | cons r rest =>
    refine ⟨"", ?_⟩
    rw [ending, ending, hst, ht, String.empty_append, List.getLast?_append,
      List.getLast?_cons_cons, List.getLast?_cons_cons, Option.or_of_isSome (by simp)]

end SceneDiagram.Text
