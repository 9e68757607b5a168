import SceneDiagram.Directory
import SceneDiagram.Proofs.Path.Trail

/-!
# What stands where

Seen from outside, a directory tree says of each place whether nothing, a folder
or a file with some content stands there. Putting an entry into the tree and
taking a file away change that at one place (`standing?_put`,
`standing?_remove`), and both keep the tree well formed.
-/

namespace SceneDiagram

open SceneDiagram.Path (IsName)

inductive Standing
  | file (content : ByteArray)
  | folder

-- ---------------------------------------------------------------------------
-- One level
-- ---------------------------------------------------------------------------

namespace Directory

variable {d : Directory} {e x : Entry} {n m name : String}

@[elab_as_elim] theorem consInduction {motive : Directory → Prop} (empty : motive .empty)
    (cons : ∀ n e rest, motive rest → motive (cons n e rest)) : ∀ d, motive d
  | .empty => empty
  | .file n content rest => cons n (.file content) rest (consInduction empty cons rest)
  | .folder n entries rest => cons n (.folder entries) rest (consInduction empty cons rest)

def names : Directory → List String
  | .empty => []
  | .file n _ rest => n :: rest.names
  | .folder n _ rest => n :: rest.names

@[simp] theorem names_cons : (cons n e d).names = n :: d.names := by
  cases e <;> rfl

theorem set_cons : (cons n e d).set name x =
    if n = name then cons name x d
    else if name < n then cons name x (cons n e d)
    else cons n e (d.set name x) := by
  cases e <;> rfl

theorem erase_cons :
    (cons n e d).erase name = if n = name then d else cons n e (d.erase name) := by
  cases e <;> rfl

theorem mem_names : m ∈ d.names ↔ ∃ e, d.get? m = some e := by
  induction d using consInduction with
  | empty => simp [names, get?]
  | cons n e rest ih =>
    rw [names_cons, List.mem_cons, get?_cons]
    by_cases h : n = m
    · simp [h]
    · simp [h, Ne.symm h, ih]

theorem mem_names_set : m ∈ (d.set name e).names ↔ m = name ∨ m ∈ d.names := by
  rw [mem_names, mem_names, get?_set]
  by_cases h : name = m
  · simp [h]
  · simp [h, Ne.symm h]

/-- Entries have names of one step each, in ascending order, at every depth. -/
def WellFormed : Directory → Prop
  | .empty => True
  | .file n _ rest => IsName n ∧ (∀ m ∈ rest.names, n < m) ∧ rest.WellFormed
  | .folder n entries rest =>
    IsName n ∧ (∀ m ∈ rest.names, n < m) ∧ entries.WellFormed ∧ rest.WellFormed

instance decidableWellFormed : (d : Directory) → Decidable d.WellFormed
  | .empty => inferInstanceAs (Decidable True)
  | .file n _ rest =>
    have := decidableWellFormed rest
    inferInstanceAs (Decidable (IsName n ∧ (∀ m ∈ rest.names, n < m) ∧ rest.WellFormed))
  | .folder n entries rest =>
    have := decidableWellFormed entries
    have := decidableWellFormed rest
    inferInstanceAs (Decidable
      (IsName n ∧ (∀ m ∈ rest.names, n < m) ∧ entries.WellFormed ∧ rest.WellFormed))

end Directory

namespace Entry

def WellFormed : Entry → Prop
  | .file _ => True
  | .folder entries => entries.WellFormed

def standing : Entry → Standing
  | .file content => .file content
  | .folder _ => .folder

def standing? (e : Entry) (place : Place) : Option Standing := (e.find? place).map standing

@[simp] theorem standing?_nil (e : Entry) : e.standing? [] = some e.standing := by
  cases e <;> rfl

@[simp] theorem standing?_file (content : ByteArray) (n : String) (place : Place) :
    (file content).standing? (n :: place) = none := rfl

def IsBare (e : Entry) : Prop := ∀ n place, e.standing? (n :: place) = none

theorem isBare_file (content : ByteArray) : (file content).IsBare := fun _ _ => rfl

theorem isBare_empty : (folder .empty).IsBare := fun _ _ => rfl

end Entry

namespace Directory

variable {d : Directory} {e x : Entry} {n m name : String} {place q : Place}

def standing? (d : Directory) (place : Place) : Option Standing := (Entry.folder d).standing? place

@[simp] theorem standing?_nil (d : Directory) : d.standing? [] = some .folder := rfl

theorem standing?_cons (d : Directory) (n : String) (place : Place) :
    d.standing? (n :: place) = (d.get? n).bind (·.standing? place) := by
  rw [standing?, Entry.standing?, Entry.find?, Option.map_bind]
  rfl

theorem standing?_folder (entries : Directory) :
    (Entry.folder entries).standing? place = entries.standing? place := rfl

theorem standing?_eq_map : d.standing? place = (d.find? place).map Entry.standing := rfl

theorem hasFolder_iff : d.hasFolder place ↔ d.standing? place = some .folder := by
  rw [hasFolder, standing?_eq_map]
  cases h : d.find? place with
  | none => simp
  | some e => cases e <;> simp [Entry.standing]

theorem find?_eq_file_iff :
    d.find? place = some (.file content) ↔ d.standing? place = some (.file content) := by
  rw [standing?_eq_map]
  cases h : d.find? place with
  | none => simp
  | some e => cases e <;> simp [Entry.standing]

theorem standing?_ne_folder (h : ∀ entries, d.find? place ≠ some (.folder entries)) :
    d.standing? place ≠ some .folder := by
  rw [standing?_eq_map]
  cases hfind : d.find? place with
  | none => simp
  | some e =>
    cases e with
    | file content => simp [Entry.standing]
    | folder entries => exact absurd hfind (h entries)

theorem exists_folder (h : d.standing? (n :: place) = some .folder) :
    ∃ entries, d.get? n = some (.folder entries) := by
  rw [standing?_cons] at h
  obtain ⟨e, hget, he⟩ := Option.bind_eq_some_iff.mp h
  cases e with
  | folder entries => exact ⟨entries, hget⟩
  | file content => cases place <;> cases he

-- ---------------------------------------------------------------------------
-- Well-formed trees
-- ---------------------------------------------------------------------------

theorem wellFormed_cons : (cons n e d).WellFormed ↔
    IsName n ∧ (∀ m ∈ d.names, n < m) ∧ e.WellFormed ∧ d.WellFormed := by
  cases e <;> simp [cons, WellFormed, Entry.WellFormed]

theorem WellFormed.of_get? (h : d.WellFormed) (hn : d.get? n = some e) :
    IsName n ∧ e.WellFormed := by
  induction d using consInduction with
  | empty => simp [get?] at hn
  | cons m x rest ih =>
    obtain ⟨hm, -, hx, hrest⟩ := wellFormed_cons.mp h
    rw [get?_cons] at hn
    split at hn
    · next heq =>
      cases hn
      exact ⟨heq ▸ hm, hx⟩
    · exact ih hrest hn

theorem WellFormed.of_find? (h : d.WellFormed) (hplace : d.find? place = some (.folder entries)) :
    entries.WellFormed := by
  induction place generalizing d with
  | nil =>
    cases hplace
    exact h
  | cons n place ih =>
    obtain ⟨e, hget, he⟩ := Option.bind_eq_some_iff.mp hplace
    cases e with
    | folder sub => exact ih (h.of_get? hget).2 he
    | file content => cases place <;> cases he

theorem WellFormed.set (h : d.WellFormed) (hname : IsName name) (he : e.WellFormed) :
    (d.set name e).WellFormed := by
  induction d using consInduction with
  | empty => exact wellFormed_cons.mpr ⟨hname, by simp [names], he, h⟩
  | cons n x rest ih =>
    obtain ⟨hn, hless, hx, hrest⟩ := wellFormed_cons.mp h
    rw [set_cons]
    split
    · next heq => exact wellFormed_cons.mpr ⟨hname, heq ▸ hless, he, hrest⟩
    · split
      · next hlt =>
        refine wellFormed_cons.mpr ⟨hname, ?_, he, h⟩
        intro m hm
        rw [names_cons, List.mem_cons] at hm
        rcases hm with rfl | hm
        · exact hlt
        · exact String.lt_trans hlt (hless m hm)
      · next hne hnlt =>
        refine wellFormed_cons.mpr ⟨hn, ?_, hx, ih hrest⟩
        intro m hm
        rcases mem_names_set.mp hm with rfl | hm
        · grind
        · exact hless m hm

theorem get?_erase (h : d.WellFormed) :
    (d.erase name).get? m = if name = m then none else d.get? m := by
  induction d using consInduction with
  | empty => simp [erase, get?]
  | cons n e rest ih =>
    obtain ⟨-, hless, -, hrest⟩ := wellFormed_cons.mp h
    rw [erase_cons, get?_cons]
    by_cases hn : n = name
    · subst hn
      rw [if_pos rfl]
      split
      · next heq =>
        -- A name comes once, so the rest does not have it again.
        subst heq
        cases hget : rest.get? n with
        | none => rfl
        | some e => exact absurd (hless n (mem_names.mpr ⟨e, hget⟩)) (String.lt_irrefl n)
      · rfl
    · rw [if_neg hn, get?_cons, ih hrest]
      split
      · next heq => rw [if_neg (by rintro rfl; exact hn heq)]
      · rfl

theorem WellFormed.erase (h : d.WellFormed) : (d.erase name).WellFormed := by
  induction d using consInduction with
  | empty => exact h
  | cons n e rest ih =>
    obtain ⟨hn, hless, he, hrest⟩ := wellFormed_cons.mp h
    rw [erase_cons]
    split
    · exact hrest
    · refine wellFormed_cons.mpr ⟨hn, fun m hm => ?_, he, ih hrest⟩
      obtain ⟨x, hx⟩ := mem_names.mp hm
      rw [get?_erase hrest] at hx
      split at hx
      · cases hx
      · exact hless m (mem_names.mpr ⟨x, hx⟩)

theorem standing?_above (h : d.standing? (place ++ [n]) = some s) :
    d.standing? place = some .folder := by
  induction place generalizing d with
  | nil => rfl
  | cons m place ih =>
    rw [List.cons_append, standing?_cons] at h
    rw [standing?_cons]
    obtain ⟨e, hget, he⟩ := Option.bind_eq_some_iff.mp h
    rw [hget, Option.bind_some]
    cases e with
    | file content => cases place <;> cases he
    | folder entries => exact ih he

theorem standing?_dropLast (h : d.standing? place = some .folder) :
    d.standing? place.dropLast = some .folder := by
  cases hlast : place.getLast? with
  | none => rwa [List.getLast?_eq_none_iff.mp hlast] at h ⊢
  | some n =>
    obtain ⟨lead, rfl⟩ := List.getLast?_eq_some_iff.mp hlast
    rw [List.dropLast_concat]
    exact standing?_above h

theorem WellFormed.isName (h : d.WellFormed) (hs : d.standing? place = some s) :
    ∀ n ∈ place, IsName n := by
  induction place generalizing d with
  | nil => simp
  | cons m place ih =>
    rw [standing?_cons] at hs
    obtain ⟨e, hget, he⟩ := Option.bind_eq_some_iff.mp hs
    obtain ⟨hm, hwell⟩ := h.of_get? hget
    refine List.forall_mem_cons.mpr ⟨hm, ?_⟩
    cases e with
    | folder entries => exact ih hwell he
    | file content =>
      cases place with
      | nil => simp
      | cons k place => cases he

-- ---------------------------------------------------------------------------
-- Putting
-- ---------------------------------------------------------------------------

theorem put_below (hn : d.get? n = some (.folder entries)) :
    put e d (n :: m :: place) = d.set n (.folder (put e entries (m :: place))) := by
  simp only [put, hn]

/-- An entry that is put into a folder stands there, and everything else stays. -/
theorem standing?_put (hbare : e.IsBare) (hne : place ≠ [])
    (hparent : d.standing? place.dropLast = some .folder)
    (hfree : d.standing? place ≠ some .folder) :
    (put e d place).standing? q = if q = place then some e.standing else d.standing? q := by
  induction place generalizing d q with
  | nil => exact absurd rfl hne
  | cons name place ih =>
    cases q with
    | nil => simp
    | cons n q =>
      cases place with
      | nil =>
        rw [put, standing?_cons, get?_set]
        by_cases hn : name = n
        · subst hn
          cases q with
          | nil => simp
          | cons m q =>
            -- Nothing stood below the name either, since no folder did at it.
            have hbelow : d.standing? (name :: m :: q) = none := by
              rw [standing?_cons] at hfree ⊢
              cases hget : d.get? name with
              | none => rfl
              | some x =>
                cases x with
                | file content => rfl
                | folder entries => simp [hget, Entry.standing] at hfree
            simp [hbare m q, hbelow]
        · simp [hn, Ne.symm hn, standing?_cons]
      | cons m place =>
        rw [List.dropLast_cons_of_ne_nil (by simp)] at hparent
        obtain ⟨entries, hget⟩ := exists_folder hparent
        rw [put_below hget, standing?_cons, get?_set]
        by_cases hn : name = n
        · subst hn
          have hstep (p : Place) : d.standing? (name :: p) = entries.standing? p := by
            rw [standing?_cons, hget]
            rfl
          rw [if_pos rfl, Option.bind_some, standing?_folder, hstep q, ih (by simp)]
          · simp
          · rwa [hstep] at hparent
          · rwa [hstep] at hfree
        · simp [hn, Ne.symm hn, standing?_cons]

theorem WellFormed.put (h : d.WellFormed) (he : e.WellFormed) (hplace : ∀ n ∈ place, IsName n) :
    (put e d place).WellFormed := by
  induction place generalizing d with
  | nil => exact h
  | cons name place ih =>
    obtain ⟨hname, hplace⟩ := List.forall_mem_cons.mp hplace
    cases place with
    | nil => exact h.set hname he
    | cons m place =>
      simp only [Directory.put]
      split
      · next entries hget => exact h.set hname (ih (h.of_get? hget).2 hplace)
      · exact h

-- ---------------------------------------------------------------------------
-- Removing
-- ---------------------------------------------------------------------------

/-- Where a file is removed nothing stands any more, and everything else stays. -/
theorem standing?_remove (h : d.WellFormed) (hfile : d.standing? place = some (.file content)) :
    (d.remove place).standing? q = if q = place then none else d.standing? q := by
  induction place generalizing d q with
  | nil => cases hfile
  | cons name place ih =>
    rw [standing?_cons] at hfile
    obtain ⟨e, hget, he⟩ := Option.bind_eq_some_iff.mp hfile
    cases q with
    | nil => simp
    | cons n q =>
      cases place with
      | nil =>
        rw [remove, standing?_cons, get?_erase h]
        by_cases hn : name = n
        · subst hn
          cases e with
          | folder entries => cases he
          | file content => cases q <;> simp [standing?_cons, hget]
        · simp [hn, Ne.symm hn, standing?_cons]
      | cons m place =>
        cases e with
        | file content => cases he
        | folder entries =>
          simp only [remove, hget]
          rw [standing?_cons, get?_set]
          by_cases hn : name = n
          · subst hn
            have hwell : entries.WellFormed := (h.of_get? hget).2
            rw [if_pos rfl, Option.bind_some, standing?_folder, ih hwell he, standing?_cons, hget]
            simp [standing?_folder]
          · simp [hn, Ne.symm hn, standing?_cons]

theorem WellFormed.remove (h : d.WellFormed) : (d.remove place).WellFormed := by
  induction place generalizing d with
  | nil => exact h
  | cons name place ih =>
    cases place with
    | nil => exact h.erase
    | cons m place =>
      simp only [Directory.remove]
      split
      · next entries hget =>
        obtain ⟨hname, hentries⟩ := h.of_get? hget
        exact h.set hname (ih hentries)
      · exact h

end Directory

end SceneDiagram
