import Mathlib.Data.List.Nodup
import SceneDiagram.Proofs.Directory.Standing

/-!
# What a walk meets

A walk meets the files and the folders at the places all of whose names are shown
(`mem_filesWhere`, `mem_foldersWhere`), the files in ascending order of their places
(`filesWhere_sorted`). So trees in which the same files stand are walked alike
(`filesWhere_congr`), and a well-formed tree is no more than what stands in it
(`WellFormed.ext`).
-/

namespace SceneDiagram

variable {d d' : Directory} {e x : Entry} {n m : String} {place : Place} {shown : String → Bool}
  {content : ByteArray}

namespace Directory

-- ---------------------------------------------------------------------------
-- Entries in front
-- ---------------------------------------------------------------------------

theorem WellFormed.get?_rest (h : (cons n e d).WellFormed) : d.get? n = none := by
  obtain ⟨-, hless, -, -⟩ := wellFormed_cons.mp h
  cases hget : d.get? n with
  | none => rfl
  | some x => exact absurd (hless n (mem_names.mpr ⟨x, hget⟩)) (String.lt_irrefl n)

theorem standing?_cons_self : (cons n e d).standing? (n :: place) = e.standing? place := by
  rw [standing?_cons, get?_cons, if_pos rfl, Option.bind_some]

theorem standing?_cons_ne (h : n ≠ m) :
    (cons n e d).standing? (m :: place) = d.standing? (m :: place) := by
  rw [standing?_cons, get?_cons, if_neg h, standing?_cons]

theorem WellFormed.standing?_rest (h : (cons n e d).WellFormed) :
    d.standing? (n :: place) = none := by
  rw [standing?_cons, h.get?_rest, Option.bind_none]

theorem exists_name (h : d.standing? (n :: place) = some s) : n ∈ d.names := by
  rw [standing?_cons] at h
  obtain ⟨e, hget, -⟩ := Option.bind_eq_some_iff.mp h
  exact mem_names.mpr ⟨e, hget⟩

-- ---------------------------------------------------------------------------
-- Members
-- ---------------------------------------------------------------------------

end Directory

def Entry.filesWhere (shown : String → Bool) : Entry → List (Place × ByteArray)
  | .file content => [([], content)]
  | .folder entries => entries.filesWhere shown

def Entry.foldersWhere (shown : String → Bool) : Entry → List Place
  | .file _ => []
  | .folder entries => [] :: entries.foldersWhere shown

namespace Directory

theorem filesWhere_cons : (cons n e d).filesWhere shown =
    (if shown n then (e.filesWhere shown).map fun f => (n :: f.1, f.2) else []) ++
      d.filesWhere shown := by
  cases e <;> rfl

theorem foldersWhere_cons : (cons n e d).foldersWhere shown =
    (if shown n then (e.foldersWhere shown).map (n :: ·) else []) ++ d.foldersWhere shown := by
  cases e with
  | file content => simp [cons, foldersWhere, Entry.foldersWhere]
  | folder entries => rfl

theorem standing?_shown_cons (h : (cons n e d).WellFormed) (s : Standing) :
    ((cons n e d).standing? (m :: place) = some s ∧ ∀ k ∈ m :: place, shown k) ↔
      (shown n ∧ m = n ∧ e.standing? place = some s ∧ ∀ k ∈ place, shown k) ∨
      (d.standing? (m :: place) = some s ∧ ∀ k ∈ m :: place, shown k) := by
  by_cases hn : n = m
  · subst hn
    rw [standing?_cons_self, h.standing?_rest]
    simp [and_left_comm]
  · rw [standing?_cons_ne hn]
    simp [Ne.symm hn]

theorem mem_filesWhere_cons (h : (cons n e d).WellFormed)
    (he : ∀ place, (place, content) ∈ e.filesWhere shown ↔
      e.standing? place = some (.file content) ∧ ∀ n ∈ place, shown n)
    (hd : ∀ place, (place, content) ∈ d.filesWhere shown ↔
      d.standing? place = some (.file content) ∧ ∀ n ∈ place, shown n) (place : Place) :
    (place, content) ∈ (cons n e d).filesWhere shown ↔
      (cons n e d).standing? place = some (.file content) ∧ ∀ n ∈ place, shown n := by
  rw [filesWhere_cons, List.mem_append, hd]
  cases place with
  | nil => split <;> simp
  | cons m below =>
    rw [standing?_shown_cons h, ← he]
    refine or_congr_left ?_
    split
    · next hshown => simp [hshown, eq_comm, and_comm]
    · next hshown => simp [hshown]

/-- A walk meets the files at shown places. -/
theorem mem_filesWhere (h : d.WellFormed) (place : Place) : (place, content) ∈ d.filesWhere shown ↔
    d.standing? place = some (.file content) ∧ ∀ n ∈ place, shown n := by
  induction d generalizing place with
  | empty => cases place <;> simp [filesWhere, standing?_cons, get?]
  | file n c rest ih =>
    refine mem_filesWhere_cons (e := .file c) h (fun place => ?_) (ih h.2.2) place
    cases place with
    | nil => simpa [Entry.filesWhere, Entry.standing] using eq_comm
    | cons m below => simp [Entry.filesWhere]
  | folder n entries rest ihEntries ihRest =>
    exact mem_filesWhere_cons (e := .folder entries) h (ihEntries h.2.2.1) (ihRest h.2.2.2) place

theorem mem_foldersWhere_cons (h : (cons n e d).WellFormed)
    (he : ∀ place, place ∈ e.foldersWhere shown ↔
      e.standing? place = some .folder ∧ ∀ n ∈ place, shown n)
    (hd : ∀ n place, n :: place ∈ d.foldersWhere shown ↔
      d.standing? (n :: place) = some .folder ∧ ∀ k ∈ n :: place, shown k)
    (m : String) (place : Place) : m :: place ∈ (cons n e d).foldersWhere shown ↔
      (cons n e d).standing? (m :: place) = some .folder ∧ ∀ k ∈ m :: place, shown k := by
  rw [foldersWhere_cons, List.mem_append, hd, standing?_shown_cons h, ← he]
  refine or_congr_left ?_
  split
  · next hshown => simp [hshown, eq_comm, and_comm]
  · next hshown => simp [hshown]

theorem nil_not_mem_foldersWhere (d : Directory) (shown : String → Bool) :
    [] ∉ d.foldersWhere shown := by
  induction d using consInduction with
  | empty => simp [foldersWhere]
  | cons n e rest ih =>
    rw [foldersWhere_cons, List.mem_append, not_or]
    refine ⟨?_, ih⟩
    split <;> simp

/-- A walk meets the folders at shown places, but for the directory itself. -/
theorem mem_foldersWhere (h : d.WellFormed) (n : String) (place : Place) :
    n :: place ∈ d.foldersWhere shown ↔
      d.standing? (n :: place) = some .folder ∧ ∀ k ∈ n :: place, shown k := by
  induction d generalizing n place with
  | empty => simp [foldersWhere, standing?_cons, get?]
  | file m c rest ih =>
    refine mem_foldersWhere_cons (e := .file c) h (fun place => ?_) (ih h.2.2) n place
    cases place <;> simp [Entry.foldersWhere, Entry.standing]
  | folder m entries rest ihEntries ihRest =>
    refine mem_foldersWhere_cons (e := .folder entries) h (fun place => ?_) (ihRest h.2.2.2) n place
    rw [standing?_folder, Entry.foldersWhere, List.mem_cons]
    cases place with
    | nil => simp
    | cons k below => simpa using ihEntries h.2.2.1 k below

-- ---------------------------------------------------------------------------
-- Order
-- ---------------------------------------------------------------------------

theorem lt_cons_of_mem_filesWhere (h : d.WellFormed) (hless : ∀ m ∈ d.names, n < m)
    (hq : q ∈ (d.filesWhere shown).map Prod.fst) : n :: place < q := by
  obtain ⟨⟨q, c⟩, hmem, rfl⟩ := List.mem_map.mp hq
  have hstands := ((mem_filesWhere h q).mp hmem).1
  cases q with
  | nil => cases hstands
  | cons m below => exact List.Lex.rel (hless m (exists_name hstands))

theorem filesWhere_sorted_cons (h : (cons n e d).WellFormed)
    (he : ((e.filesWhere shown).map Prod.fst).Pairwise (· < ·))
    (hd : ((d.filesWhere shown).map Prod.fst).Pairwise (· < ·)) :
    (((cons n e d).filesWhere shown).map Prod.fst).Pairwise (· < ·) := by
  obtain ⟨-, hless, -, hwell⟩ := wellFormed_cons.mp h
  have hfront : ((e.filesWhere shown).map fun f => (n :: f.1, f.2)).map Prod.fst =
      ((e.filesWhere shown).map Prod.fst).map (n :: ·) := by
    rw [List.map_map, List.map_map]
    rfl
  rw [filesWhere_cons, List.map_append, List.pairwise_append]
  refine ⟨?_, hd, fun p hp q hq => ?_⟩
  · split
    · rw [hfront]
      exact he.map _ fun _ _ hlt => List.Lex.cons hlt
    · exact .nil
  · split at hp
    · rw [hfront] at hp
      obtain ⟨below, -, rfl⟩ := List.mem_map.mp hp
      exact lt_cons_of_mem_filesWhere hwell hless hq
    · cases hp

theorem filesWhere_sorted (h : d.WellFormed) (shown : String → Bool) :
    ((d.filesWhere shown).map Prod.fst).Pairwise (· < ·) := by
  induction d with
  | empty => exact .nil
  | file n c rest ih =>
    exact filesWhere_sorted_cons (e := .file c) h (by simp [Entry.filesWhere]) (ih h.2.2)
  | folder n entries rest ihEntries ihRest =>
    exact filesWhere_sorted_cons (e := .folder entries) h (ihEntries h.2.2.1) (ihRest h.2.2.2)

end Directory

namespace Entry

variable {e' : Entry}

theorem mem_filesWhere (h : e.WellFormed) (place : Place) :
    (place, content) ∈ e.filesWhere shown ↔
      e.standing? place = some (.file content) ∧ ∀ n ∈ place, shown n := by
  cases e with
  | folder entries => exact Directory.mem_filesWhere h place
  | file c =>
    cases place with
    | nil => simpa [filesWhere, standing] using eq_comm
    | cons n below => simp [filesWhere]

theorem filesWhere_sorted (h : e.WellFormed) (shown : String → Bool) :
    ((e.filesWhere shown).map Prod.fst).Pairwise (· < ·) := by
  cases e with
  | file c => simp [filesWhere]
  | folder entries => exact Directory.filesWhere_sorted h shown

theorem filesWhere_nodup (h : e.WellFormed) (shown : String → Bool) :
    ((e.filesWhere shown).map Prod.fst).Nodup := by
  refine (filesWhere_sorted h shown).imp ?_
  rintro a _ hlt rfl
  exact List.lt_irrefl a hlt

/-- Where the same files stand at the places that `p` picks, a walk meets them in the
same order. -/
theorem filesWhere_congr (h : e.WellFormed) (h' : e'.WellFormed) {p : Place → Bool}
    (hsame : ∀ place, p place → ((∃ c, e.standing? place = some (.file c)) ↔
      ∃ c, e'.standing? place = some (.file c))) :
    ((e.filesWhere shown).map Prod.fst).filter p =
      ((e'.filesWhere shown).map Prod.fst).filter p := by
  have hmem {e : Entry} (h : e.WellFormed) (place : Place) :
      place ∈ (e.filesWhere shown).map Prod.fst ↔
        (∃ c, e.standing? place = some (.file c)) ∧ ∀ n ∈ place, shown n := by
    simp [mem_filesWhere h]
  refine List.Perm.eq_of_pairwise (fun a b _ _ hab hba => absurd hba (List.lt_asymm hab))
    ((filesWhere_sorted h shown).filter p) ((filesWhere_sorted h' shown).filter p)
    ((List.perm_ext_iff_of_nodup ((filesWhere_nodup h shown).filter p)
      ((filesWhere_nodup h' shown).filter p)).mpr fun place => ?_)
  rw [List.mem_filter, List.mem_filter, hmem h, hmem h']
  exact and_congr_left fun hp => and_congr_left fun _ => hsame place hp

end Entry

namespace Directory

-- ---------------------------------------------------------------------------
-- Trees that show the same
-- ---------------------------------------------------------------------------

theorem eq_of_standing?_cons {n' : String} {e' : Entry} (h : (cons n e d).WellFormed)
    (h' : (cons n' e' d').WellFormed)
    (hsame : ∀ q, (cons n e d).standing? q = (cons n' e' d').standing? q) :
    n = n' ∧ (∀ q, e.standing? q = e'.standing? q) ∧ ∀ q, d.standing? q = d'.standing? q := by
  have hname : n = n' := by
    have hmem {m k : String} {x y : Entry} {a b : Directory} (hb : (cons k y b).WellFormed)
        (heq : (cons m x a).standing? [m] = (cons k y b).standing? [m]) : m = k ∨ k < m := by
      rw [standing?_cons_self, Entry.standing?_nil] at heq
      have hm := exists_name heq.symm
      rw [names_cons, List.mem_cons] at hm
      exact hm.imp_right fun hm => (wellFormed_cons.mp hb).2.1 m hm
    rcases hmem h' (hsame [n]) with heq | hlt
    · exact heq
    · rcases hmem h (hsame [n']).symm with heq | hgt
      · exact heq.symm
      · exact absurd hgt (String.lt_asymm hlt)
  subst hname
  refine ⟨rfl, fun q => ?_, fun q => ?_⟩
  · have heq := hsame (n :: q)
    rwa [standing?_cons_self, standing?_cons_self] at heq
  · cases q with
    | nil => rfl
    | cons m below =>
      by_cases hm : n = m
      · subst hm
        rw [h.standing?_rest, h'.standing?_rest]
      · have heq := hsame (m :: below)
        rwa [standing?_cons_ne hm, standing?_cons_ne hm] at heq

theorem cons_ext (h : (cons n e d).WellFormed) (h' : d'.WellFormed)
    (hsame : ∀ q, (cons n e d).standing? q = d'.standing? q)
    (he : ∀ e', e'.WellFormed → (∀ q, e.standing? q = e'.standing? q) → e = e')
    (hd : ∀ d', d'.WellFormed → (∀ q, d.standing? q = d'.standing? q) → d = d') :
    cons n e d = d' := by
  cases d' using consInduction with
  | empty =>
    have hfirst := hsame [n]
    rw [standing?_cons_self, Entry.standing?_nil] at hfirst
    cases hfirst
  | cons n' e' rest' =>
    obtain ⟨-, -, hentry', hrest'⟩ := wellFormed_cons.mp h'
    obtain ⟨rfl, hentry, hrest⟩ := eq_of_standing?_cons h h' hsame
    rw [he e' hentry' hentry, hd rest' hrest' hrest]

/-- Well-formed trees in which the same stands everywhere are the same. -/
theorem WellFormed.ext (h : d.WellFormed) (h' : d'.WellFormed)
    (hsame : ∀ q, d.standing? q = d'.standing? q) : d = d' := by
  induction d generalizing d' with
  | empty =>
    cases d' using consInduction with
    | empty => rfl
    | cons n e rest =>
      have hfirst := hsame [n]
      rw [standing?_cons_self, Entry.standing?_nil] at hfirst
      cases hfirst
  | file n c rest ih =>
    refine cons_ext (e := .file c) h h' hsame (fun e' _ hentry => ?_) fun _ => ih h.2.2
    have hhere := hentry []
    cases e' with
    | file content =>
      cases hhere
      rfl
    | folder entries => cases hhere
  | folder n entries rest ihEntries ihRest =>
    refine cons_ext (e := .folder entries) h h' hsame (fun e' he' hentry => ?_) fun _ =>
      ihRest h.2.2.2
    cases e' with
    | file content => cases hentry []
    | folder entries' => rw [ihEntries h.2.2.1 he' hentry]

end Directory

end SceneDiagram
