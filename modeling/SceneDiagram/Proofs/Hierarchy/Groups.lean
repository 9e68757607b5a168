import Mathlib.Data.List.Induction
import Mathlib.Data.List.Nodup
import SceneDiagram.Hierarchy.Registry

/-!
# Groups of declarations

`Group.grouped_ofDeclarations`: the groups of a list are the lists of declarations
that share a file, each in its order and called by its first file. So they stay the
same but for their order when declarations of different files change places
(`Group.ofDeclarations_perm`), and a file taken out of the list takes nothing but its
group with it (`Group.ofDeclarations_without`).
-/

namespace SceneDiagram

theorem Path.same_iff {p q : Path} : p.same q ↔ p.components = q.components := beq_iff_eq

theorem Path.same_refl (p : Path) : p.same p := same_iff.mpr rfl

theorem Path.same_symm {p q : Path} (h : p.same q) : q.same p :=
  same_iff.mpr (same_iff.mp h).symm

theorem Path.same_trans {p q r : Path} (hpq : p.same q) (hqr : q.same r) : p.same r :=
  same_iff.mpr ((same_iff.mp hpq).trans (same_iff.mp hqr))

namespace Hierarchy.Group

variable {d : Declaration} {ds : List Declaration} {groups : List Group}

def sharing (file : Path) (ds : List Declaration) : List Declaration := ds.filter (file.same ·.file)

/-- A group with all declarations of its file, called by the first of them. -/
structure Whole (ds : List Declaration) (g : Group) : Prop where
  all : g.declarations = sharing g.file ds
  first : g.declarations.head?.map (·.file) = some g.file

/-- The groups of a list: each file has one. -/
structure Grouped (ds : List Declaration) (groups : List Group) : Prop where
  apart : (groups.map (·.file.components)).Nodup
  whole : ∀ g ∈ groups, Whole ds g
  covered : ∀ d ∈ ds, ∃ g ∈ groups, g.file.same d.file

theorem insert_cases (d : Declaration) (groups : List Group) :
    (∀ g ∈ groups, ¬ g.file.same d.file) ∧ insert d groups = groups ++ [⟨d.file, [d]⟩] ∨
      ∃ before g after, groups = before ++ g :: after ∧ g.file.same d.file ∧
        insert d groups = before ++ ⟨g.file, g.declarations ++ [d]⟩ :: after := by
  induction groups with
  | nil => exact .inl ⟨nofun, rfl⟩
  | cons g groups ih =>
    rw [insert]
    split
    · next hg => exact .inr ⟨[], g, groups, rfl, hg, rfl⟩
    · next hg =>
      rcases ih with ⟨hnone, hinsert⟩ | ⟨before, h, after, rfl, hh, hinsert⟩
      · refine .inl ⟨List.forall_mem_cons.mpr ⟨hg, hnone⟩, ?_⟩
        rw [hinsert, List.cons_append]
      · exact .inr ⟨g :: before, h, after, rfl, hh, by rw [hinsert, List.cons_append]⟩

theorem sharing_append_of_same {file : Path} (h : file.same d.file) :
    sharing file (ds ++ [d]) = sharing file ds ++ [d] := by
  simp [sharing, List.filter_append, h]

theorem sharing_append_of_not_same {file : Path} (h : ¬ file.same d.file) :
    sharing file (ds ++ [d]) = sharing file ds := by
  simp [sharing, List.filter_append, h]

theorem sharing_eq_of_same {file other : Path} (h : file.same other) :
    sharing file ds = sharing other ds := by
  simp only [sharing, Path.same, Path.same_iff.mp h]

theorem Whole.append_of_not_same {g : Group} (h : Whole ds g) (hd : ¬ g.file.same d.file) :
    Whole (ds ++ [d]) g :=
  ⟨h.all.trans (sharing_append_of_not_same hd).symm, h.first⟩

theorem Whole.append_of_same {g : Group} (h : Whole ds g) (hd : g.file.same d.file) :
    Whole (ds ++ [d]) ⟨g.file, g.declarations ++ [d]⟩ := by
  refine ⟨by rw [sharing_append_of_same hd, h.all], ?_⟩
  obtain ⟨first, hfirst, hfile⟩ := Option.map_eq_some_iff.mp h.first
  rw [List.head?_append, hfirst]
  exact congrArg some hfile

theorem Grouped.others (h : Grouped ds (before ++ g :: after)) (hk : k ∈ before ++ after) :
    ¬ k.file.same g.file := by
  have hnodup := h.apart
  rw [List.map_append, List.map_cons, List.nodup_middle, ← List.map_append, List.nodup_cons]
    at hnodup
  exact fun hsame => hnodup.1 (List.mem_map.mpr ⟨k, hk, Path.same_iff.mp hsame⟩)

theorem Grouped.insert (h : Grouped ds groups) (d : Declaration) :
    Grouped (ds ++ [d]) (insert d groups) := by
  rcases insert_cases d groups with ⟨hnone, hinsert⟩ | ⟨before, g, after, rfl, hg, hinsert⟩
  · rw [hinsert]
    have hfresh : sharing d.file ds = [] := by
      refine List.filter_eq_nil_iff.mpr fun e he hsame => ?_
      obtain ⟨g, hg, hge⟩ := h.covered e he
      exact hnone g hg (Path.same_trans hge (Path.same_symm hsame))
    have hself := d.file.same_refl
    refine ⟨?_, fun g hg => ?_, fun e he => ?_⟩
    · rw [List.map_append, List.nodup_append]
      refine ⟨h.apart, by simp, ?_⟩
      rintro _ hx _ hy rfl
      obtain ⟨g, hg, hx⟩ := List.mem_map.mp hx
      exact hnone g hg (Path.same_iff.mpr (hx.trans (List.mem_singleton.mp hy)))
    · rcases List.mem_append.mp hg with hg | hg
      · exact (h.whole g hg).append_of_not_same (hnone g hg)
      · rw [List.mem_singleton.mp hg]
        exact ⟨by rw [sharing_append_of_same hself, hfresh, List.nil_append], rfl⟩
    · rcases List.mem_append.mp he with he | he
      · obtain ⟨g, hg, hge⟩ := h.covered e he
        exact ⟨g, List.mem_append_left _ hg, hge⟩
      · rw [List.mem_singleton.mp he]
        exact ⟨_, List.mem_append_right _ (List.mem_singleton_self _), hself⟩
  · rw [hinsert]
    have mem_iff (k x : Group) : k ∈ before ++ x :: after ↔ k = x ∨ k ∈ before ++ after := by
      rw [List.perm_middle.mem_iff, List.mem_cons]
    have hothers (k) (hk : k ∈ before ++ after) : ¬ k.file.same d.file := fun hsame =>
      h.others hk (Path.same_trans hsame (Path.same_symm hg))
    refine ⟨?_, fun k hk => ?_, fun e he => ?_⟩
    · simpa using h.apart
    · rcases (mem_iff _ _).mp hk with rfl | hk
      · exact (h.whole g ((mem_iff _ _).mpr (.inl rfl))).append_of_same hg
      · exact (h.whole k ((mem_iff _ _).mpr (.inr hk))).append_of_not_same (hothers k hk)
    · rcases List.mem_append.mp he with he | he
      · obtain ⟨k, hk, hke⟩ := h.covered e he
        rcases (mem_iff _ _).mp hk with rfl | hk
        · exact ⟨_, (mem_iff _ _).mpr (.inl rfl), hke⟩
        · exact ⟨k, (mem_iff _ _).mpr (.inr hk), hke⟩
      · rw [List.mem_singleton.mp he]
        exact ⟨_, (mem_iff _ _).mpr (.inl rfl), hg⟩

theorem ofDeclarations_append (ds : List Declaration) (d : Declaration) :
    ofDeclarations (ds ++ [d]) = insert d (ofDeclarations ds) := by
  simp [ofDeclarations]

theorem grouped_ofDeclarations (ds : List Declaration) : Grouped ds (ofDeclarations ds) := by
  induction ds using List.reverseRecOn with
  | nil => exact ⟨List.nodup_nil, nofun, nofun⟩
  | append_singleton ds d ih =>
    rw [ofDeclarations_append]
    exact ih.insert d

theorem Grouped.eq_of_same {g k : Group} (h : Grouped ds groups) (hg : g ∈ groups)
    (hk : k ∈ groups) (hsame : g.file.same k.file) : g = k :=
  List.inj_on_of_nodup_map h.apart hg hk (Path.same_iff.mp hsame)

theorem Whole.exists_file {g : Group} (h : Whole ds g) : ∃ d ∈ ds, d.file = g.file := by
  obtain ⟨first, hfirst, hfile⟩ := Option.map_eq_some_iff.mp h.first
  exact ⟨first, List.mem_of_mem_filter (h.all ▸ List.mem_of_head? hfirst), hfile⟩

theorem mem_declarations {g : Group} (hg : g ∈ ofDeclarations ds) :
    d ∈ g.declarations ↔ d ∈ ds ∧ g.file.same d.file := by
  rw [((grouped_ofDeclarations ds).whole g hg).all, sharing, List.mem_filter]

theorem declarations_ne_nil {g : Group} (hg : g ∈ ofDeclarations ds) : g.declarations ≠ [] := by
  intro hempty
  have hfirst := ((grouped_ofDeclarations ds).whole g hg).first
  rw [hempty] at hfirst
  cases hfirst

-- ---------------------------------------------------------------------------
-- Other orders
-- ---------------------------------------------------------------------------

theorem Grouped.subset {ds' : List Declaration} {groups' : List Group} (h : Grouped ds groups)
    (h' : Grouped ds' groups') (hds : ∀ file, sharing file ds = sharing file ds') :
    groups ⊆ groups' := by
  intro g hg
  obtain ⟨d, hd, hfile⟩ := Option.map_eq_some_iff.mp (h.whole g hg).first
  have hmem : d ∈ sharing g.file ds' := by
    rw [← hds, ← (h.whole g hg).all]
    exact List.mem_of_head? hd
  obtain ⟨k, hk, hsame⟩ := h'.covered d (List.mem_of_mem_filter hmem)
  have hall : k.declarations = g.declarations := by
    rw [(h'.whole k hk).all, (h.whole g hg).all, ← hds, sharing_eq_of_same hsame, hfile]
  have hkfile := (h'.whole k hk).first
  rw [hall, (h.whole g hg).first] at hkfile
  obtain rfl : k = g := by
    obtain ⟨file, declarations⟩ := k
    obtain ⟨file', declarations'⟩ := g
    cases hall
    cases hkfile
    rfl
  exact hk

/-- Declarations that change places only with those of other files have the same
groups, in some order. -/
theorem ofDeclarations_perm {ds' : List Declaration}
    (hds : ∀ file, sharing file ds = sharing file ds') :
    (ofDeclarations ds).Perm (ofDeclarations ds') := by
  have h := grouped_ofDeclarations ds
  have h' := grouped_ofDeclarations ds'
  refine (List.perm_ext_iff_of_nodup (.of_map _ h.apart) (.of_map _ h'.apart)).mpr fun g => ?_
  exact ⟨fun hg => h.subset h' hds hg, fun hg => h'.subset h (fun file => (hds file).symm) hg⟩

-- ---------------------------------------------------------------------------
-- Without a file
-- ---------------------------------------------------------------------------

theorem filter_insert_of_same {file : Path} (h : file.same d.file) (groups : List Group) :
    (insert d groups).filter (!file.same ·.file) = groups.filter (!file.same ·.file) := by
  rcases insert_cases d groups with ⟨-, hinsert⟩ | ⟨before, g, after, rfl, hg, hinsert⟩
  · rw [hinsert, List.filter_append]
    simp [h]
  · have hsame : file.same g.file := Path.same_trans h (Path.same_symm hg)
    rw [hinsert, List.filter_append, List.filter_append]
    simp [hsame]

theorem filter_insert_of_not_same {file : Path} (h : ¬ file.same d.file) (groups : List Group) :
    (insert d groups).filter (!file.same ·.file) = insert d (groups.filter (!file.same ·.file)) := by
  induction groups with
  | nil => simp [insert, h]
  | cons g groups ih =>
    by_cases hg : g.file.same d.file
    · have hkeep : ¬ file.same g.file := fun hsame =>
        h (Path.same_trans hsame hg)
      simp [insert, hg, hkeep]
    · by_cases hkeep : file.same g.file
      · simp [insert, hg, hkeep, ih]
      · simp [insert, hg, hkeep, ih]

theorem ofDeclarations_filter (file : Path) (ds : List Declaration) :
    ofDeclarations (ds.filter (!file.same ·.file)) =
      (ofDeclarations ds).filter (!file.same ·.file) := by
  induction ds using List.reverseRecOn with
  | nil => rfl
  | append_singleton ds d ih =>
    rw [List.filter_append, ofDeclarations_append]
    by_cases h : file.same d.file
    · rw [filter_insert_of_same h, ← ih]
      simp [h]
    · rw [filter_insert_of_not_same h, ← ih, ← ofDeclarations_append]
      simp [h]

/-- Without the declarations of a group the other groups are as before. -/
theorem ofDeclarations_without (h : ofDeclarations ds = before ++ g :: after) :
    ofDeclarations (ds.filter (!g.file.same ·.file)) = before ++ after := by
  have hothers (k) (hk : k ∈ before ++ after) : ¬ g.file.same k.file := fun hsame =>
    (h ▸ grouped_ofDeclarations ds).others hk (Path.same_symm hsame)
  have hself := g.file.same_refl
  have hkeep : (before ++ after).filter (!g.file.same ·.file) = before ++ after :=
    List.filter_eq_self.mpr fun k hk => by simpa using hothers k hk
  rw [ofDeclarations_filter, h, List.filter_append, List.filter_cons_of_neg (by simp [hself]),
    ← List.filter_append, hkeep]

end Hierarchy.Group

end SceneDiagram
