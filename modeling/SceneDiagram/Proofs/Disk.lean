import SceneDiagram.Disk
import SceneDiagram.Proofs.Directory.Standing
import SceneDiagram.Proofs.Path.FileName

/-!
# What changes on a disk

Every change of a disk keeps its folders, and its files but for those at some
places: `Disk.Keeps` names the places, and changes one after the other lose what
each of them loses (`Keeps.trans`). Writing a file loses what the file takes the
place of (`write_keeps`) and leaves the file there (`write_ok`); removing files
loses those (`removeFiles_keeps`).
-/

namespace SceneDiagram

open SceneDiagram.Path (reach IsName)

-- ---------------------------------------------------------------------------
-- Following steps
-- ---------------------------------------------------------------------------

namespace Directory

variable {d d' : Directory} {place q : Place} {steps : List Path.Component}

theorem follow?_eq (h : d.follow? place steps = some q) : q = reach place steps := by
  induction steps generalizing place with
  | nil => exact (Option.some.inj h).symm
  | cons step steps ih =>
    simp only [follow?] at h
    split at h
    · cases h
    · cases step <;> exact ih h

theorem follow?_mono (hfolder : ∀ q, d.hasFolder q → d'.hasFolder q)
    (h : d.follow? place steps = some q) : d'.follow? place steps = some q := by
  induction steps generalizing place with
  | nil => exact h
  | cons step steps ih =>
    simp only [follow?] at h ⊢
    split at h
    · cases h
    · next hplace =>
      rw [if_neg (by simpa using hfolder place (by simpa using hplace))]
      cases step <;> exact ih h

theorem hasFolder_of_follow? (h : d.follow? place (steps ++ [.name n]) = some q) :
    d.hasFolder q.dropLast := by
  induction steps generalizing place with
  | nil =>
    simp only [List.nil_append, follow?] at h
    split at h
    · cases h
    · next hplace =>
      cases h
      simpa using hplace
  | cons step steps ih =>
    simp only [List.cons_append, follow?] at h
    split at h
    · cases h
    · cases step <;> exact ih h

-- ---------------------------------------------------------------------------
-- Keeping
-- ---------------------------------------------------------------------------

/-- What stood in the first tree stands in the second, but for files at some
places. -/
structure Keeps (lost : Place → Prop) (d d' : Directory) : Prop where
  wellFormed : d'.WellFormed
  folder : ∀ q, d.standing? q = some .folder → d'.standing? q = some .folder
  file : ∀ q c, d.standing? q = some (.file c) → lost q ∨ d'.standing? q = some (.file c)

variable {lost more : Place → Prop} {d₁ d₂ : Directory}

theorem Keeps.refl (h : d.WellFormed) (lost : Place → Prop) : Keeps lost d d :=
  ⟨h, fun _ hq => hq, fun _ _ hq => .inr hq⟩

theorem Keeps.trans (h₁ : Keeps lost d d₁) (h₂ : Keeps lost d₁ d₂) : Keeps lost d d₂ where
  wellFormed := h₂.wellFormed
  folder q hq := h₂.folder q (h₁.folder q hq)
  file q c hq := by
    rcases h₁.file q c hq with hlost | hq
    · exact .inl hlost
    · exact h₂.file q c hq

theorem Keeps.mono_of_file (h : Keeps lost d d₁)
    (himp : ∀ q c, d.standing? q = some (.file c) → lost q → more q) : Keeps more d d₁ where
  wellFormed := h.wellFormed
  folder := h.folder
  file q c hq := (h.file q c hq).imp_left (himp q c hq)

theorem Keeps.mono (h : Keeps lost d d₁) (himp : ∀ q, lost q → more q) : Keeps more d d₁ :=
  h.mono_of_file fun q _ _ => himp q

theorem keeps_put (h : d.WellFormed) (he : e.WellFormed) (hbare : e.IsBare) (hn : IsName n)
    (hplace : d.standing? place = some .folder)
    (hfree : d.standing? (place ++ [n]) ≠ some .folder) :
    Keeps (· = place ++ [n]) d (put e d (place ++ [n])) ∧
      (put e d (place ++ [n])).standing? (place ++ [n]) = some e.standing := by
  have hparent : d.standing? (place ++ [n]).dropLast = some .folder := by
    rwa [List.dropLast_concat]
  have hput (q : Place) : (put e d (place ++ [n])).standing? q =
      if q = place ++ [n] then some e.standing else d.standing? q :=
    standing?_put hbare (by simp) hparent hfree
  have hnames : ∀ m ∈ place ++ [n], IsName m :=
    List.forall_mem_append.mpr ⟨h.isName hplace, by simpa using hn⟩
  refine ⟨⟨h.put he hnames, fun q hq => ?_, fun q c hq => ?_⟩, by rw [hput, if_pos rfl]⟩
  · rw [hput, if_neg]
    · exact hq
    · rintro rfl
      exact hfree hq
  · by_cases heq : q = place ++ [n]
    · exact .inl heq
    · exact .inr (by rw [hput, if_neg heq, hq])

theorem keeps_remove (h : d.WellFormed) (hfile : d.standing? place = some (.file content)) :
    Keeps (· = place) d (d.remove place) where
  wellFormed := h.remove
  folder q hq := by
    rw [standing?_remove h hfile, if_neg]
    · exact hq
    · rintro rfl
      cases hfile.symm.trans hq
  file q c hq := by
    by_cases heq : q = place
    · exact .inl heq
    · exact .inr (by rw [standing?_remove h hfile, if_neg heq, hq])

theorem keeps_makeFolders (h : d.WellFormed) (hplace : d.standing? place = some .folder)
    (hsteps : ∀ n, .name n ∈ steps → IsName n) (lost : Place → Prop) :
    Keeps lost d (d.makeFolders place steps).1 := by
  induction steps generalizing d place with
  | nil => exact .refl h lost
  | cons step steps ih =>
    have hrest : ∀ n, .name n ∈ steps → IsName n := fun n hn => hsteps n (List.mem_cons_of_mem _ hn)
    cases step with
    | root => exact ih h hplace hrest
    | here => exact ih h hplace hrest
    | up => exact ih h (standing?_dropLast hplace) hrest
    | name n =>
      simp only [makeFolders]
      cases hnext : d.find? (place ++ [n]) with
      | some e =>
        cases e with
        | file content => exact .refl h lost
        | folder entries =>
          refine ih h ?_ hrest
          rw [standing?_eq_map, hnext]
          rfl
      | none =>
        simp only
        split
        · have hnone : d.standing? (place ++ [n]) = none := by rw [standing?_eq_map, hnext]; rfl
          obtain ⟨hmade, hthere⟩ := keeps_put h (e := .folder .empty) trivial Entry.isBare_empty
            (hsteps n List.mem_cons_self) hplace (by simp [hnone])
          -- No file stood where the folder was made, so none is lost there.
          refine (hmade.mono_of_file ?_).trans (ih hmade.wellFormed hthere hrest)
          rintro _ c hq rfl
          cases hnone.symm.trans hq
        · exact .refl h lost

end Directory

namespace Disk

-- No proof here looks at how long a path may be.
attribute [local irreducible] Path.isUsable

variable {d d₁ d₂ : Disk} {p : Path} {q : Place} {content c : ByteArray}

/-- The place that a path reads as, whatever stands on the way. -/
def destination (d : Disk) (p : Path) : Place := reach [] (d.steps p)

theorem destination_of_workingDir (h : d₁.workingDir = d.workingDir) (p : Path) :
    d₁.destination p = d.destination p := by
  rw [destination, destination, steps, steps, h]

theorem place?_eq (h : d.place? p = some q) : q = d.destination p := by
  unfold place? at h
  split at h
  · cases h
  · exact Directory.follow?_eq h

theorem place?_mono (hdir : d₁.workingDir = d.workingDir)
    (hfolder : ∀ q, d.root.standing? q = some .folder → d₁.root.standing? q = some .folder)
    (hp : d.place? p = some q) : d₁.place? p = some q := by
  unfold place? at hp ⊢
  split at hp
  · cases hp
  · next husable =>
    rw [if_neg husable]
    simp only [steps, hdir] at hp ⊢
    refine Directory.follow?_mono (fun q hq => ?_) hp
    rw [Directory.hasFolder_iff] at hq ⊢
    exact hfolder q hq

theorem entry?_eq_file_iff : d.entry? p = some (.file c) ↔
    d.place? p = some (d.destination p) ∧ d.root.standing? (d.destination p) = some (.file c) ∧
      p.asksFolder = false := by
  rw [← Directory.find?_eq_file_iff]
  constructor
  · intro h
    simp only [ entry?, Option.bind_eq_bind, Option.bind_eq_some_iff] at h
    obtain ⟨place, hplace, e, he, h⟩ := h
    cases place?_eq hplace
    cases e with
    | folder entries => cases h
    | file content =>
      simp only at h
      split at h
      · cases h
      · next hask =>
        cases h
        exact ⟨hplace, he, by simpa using hask⟩
  · rintro ⟨hplace, hfind, hask⟩
    simp [ entry?, hplace, hfind, hask]

theorem wellFormed_of_entry (h : d.root.WellFormed) (hp : d.entry? p = some e) :
    e.WellFormed := by
  simp only [ entry?, Option.bind_eq_bind, Option.bind_eq_some_iff] at hp
  obtain ⟨place, -, x, hx, hp⟩ := hp
  cases x with
  | folder entries =>
    cases hp
    exact h.of_find? hx
  | file content =>
    simp only at hp
    split at hp
    · cases hp
    · cases hp
      trivial

theorem getLast?_destination (h : p.fileName? = some n) : (d.destination p).getLast? = some n :=
  Path.getLast?_reach (Path.getLast?_steps_resolve h d.workingDir) []

theorem destination_resolve (d : Disk) (base : Path) (h : ¬ p.isAbsolute) :
    d.destination (base.resolve p) = reach (d.destination base) p.trail := by
  have hread (p : Path) : d.destination p = reach [] (d.workingDir.resolve p).trail :=
    Path.reach_components [] _
  have hwhole := Path.isAbsolute_resolve base h
  by_cases hbase : base.isAbsolute
  · rw [hread, hread, Path.resolve_of_isAbsolute _ (hwhole.trans hbase),
      Path.resolve_of_isAbsolute _ hbase, Path.trail_resolve base h, Path.reach_append]
  · rw [hread, hread, Path.trail_resolve _ (hwhole ▸ hbase), Path.trail_resolve _ hbase,
      Path.trail_resolve base h, ← List.append_assoc, Path.reach_append]

theorem destination_foldl_child (d : Disk) (base : Path) {below : Place}
    (h : ∀ n ∈ below, IsName n) :
    d.destination (below.foldl Path.child base) = d.destination base ++ below := by
  induction below generalizing base with
  | nil => simp
  | cons n below ih =>
    obtain ⟨hn, hbelow⟩ := List.forall_mem_cons.mp h
    rw [List.foldl_cons, ih _ hbelow, Path.child,
      destination_resolve d base hn.isPlain.not_isAbsolute, hn.isPlain.trail_eq,
      Path.components_of_isName hn, reach, reach, List.append_assoc, List.singleton_append]

theorem destination_resolve_names (d : Disk) (base : Path) {names : List String}
    (h : p.components = names.map .name) :
    d.destination (base.resolve p) = d.destination base ++ names := by
  have hplain : p.IsPlain := ⟨names, h⟩
  rw [destination_resolve d base hplain.not_isAbsolute, hplain.trail_eq, h, Path.reach_names]

theorem destination_ne {a b : Path} (ha : a.IsPlain) (hb : b.IsPlain) (h : ¬ a.same b)
    (d : Disk) (base : Path) : d.destination (base.resolve a) ≠ d.destination (base.resolve b) := by
  obtain ⟨as, has⟩ := ha
  obtain ⟨bs, hbs⟩ := hb
  rw [destination_resolve_names d base has, destination_resolve_names d base hbs, ne_eq,
    List.append_cancel_left_eq]
  rintro rfl
  exact h (by rw [Path.same, has, hbs, beq_self_eq_true])

-- ---------------------------------------------------------------------------
-- Keeping
-- ---------------------------------------------------------------------------

structure Keeps (lost : Place → Prop) (d d' : Disk) : Prop where
  workingDir : d'.workingDir = d.workingDir
  root : d.root.Keeps lost d'.root

theorem Keeps.refl (h : d.root.WellFormed) (lost : Place → Prop) : Keeps lost d d :=
  ⟨rfl, .refl h lost⟩

theorem Keeps.trans (h₁ : Keeps lost d d₁) (h₂ : Keeps lost d₁ d₂) : Keeps lost d d₂ :=
  ⟨h₂.workingDir.trans h₁.workingDir, h₁.root.trans h₂.root⟩

theorem Keeps.mono (h : Keeps lost d d₁) (himp : ∀ q, lost q → more q) : Keeps more d d₁ :=
  ⟨h.workingDir, h.root.mono himp⟩

theorem Keeps.destination (h : Keeps lost d d₁) (p : Path) :
    d₁.destination p = d.destination p := destination_of_workingDir h.workingDir p

theorem Keeps.place? (h : Keeps lost d d₁) (hp : d.place? p = some q) : d₁.place? p = some q :=
  place?_mono h.workingDir h.root.folder hp

theorem Keeps.stays (h : Keeps lost d d₁) (hp : d.entry? p = some (.file c))
    (hlost : ¬ lost (d.destination p)) : d₁.entry? p = some (.file c) := by
  rw [entry?_eq_file_iff] at hp ⊢
  obtain ⟨hplace, hfile, hask⟩ := hp
  rw [h.destination p]
  exact ⟨h.place? hplace, (h.root.file _ _ hfile).resolve_left hlost, hask⟩

-- ---------------------------------------------------------------------------
-- Writing
-- ---------------------------------------------------------------------------

theorem isName_of_mem_steps (h : .name n ∈ d.steps p) : IsName n := by
  rw [steps, Path.components_eq, List.mem_append] at h
  rcases h with h | h
  · unfold Path.front at h
    split at h
    · simp at h
    · split at h <;> simp at h
  · cases Path.isInner_of_mem_trail h with
    | name hn => exact hn

theorem makeFolders_keeps (h : d.root.WellFormed) (p : Path) (lost : Place → Prop) :
    Keeps lost d (d.makeFolders p).1 := by
  unfold makeFolders
  split
  · exact .refl h lost
  · exact ⟨rfl, Directory.keeps_makeFolders h rfl (fun _ => isName_of_mem_steps) lost⟩

theorem exists_folder_of_place? (hplace : d.place? p = some q) (hname : p.fileName? = some n) :
    ∃ lead, q = lead ++ [n] ∧ d.root.standing? lead = some .folder ∧ IsName n := by
  have hlast := Path.getLast?_steps_resolve hname d.workingDir
  have hn : IsName n := isName_of_mem_steps (d := d) (p := p) (List.mem_of_getLast? hlast)
  obtain ⟨lead, hlead⟩ :=
    List.getLast?_eq_some_iff.mp (place?_eq hplace ▸ getLast?_destination (d := d) hname)
  refine ⟨lead, hlead, ?_, hn⟩
  obtain ⟨steps, hsteps⟩ := List.getLast?_eq_some_iff.mp hlast
  unfold place? at hplace
  split at hplace
  · cases hplace
  · rw [Disk.steps, hsteps] at hplace
    have hfolder := Directory.hasFolder_of_follow? hplace
    rwa [hlead, List.dropLast_concat, Directory.hasFolder_iff] at hfolder

/-- A file that is written stands where its path reads, and may have taken the
place of another file there. -/
theorem writeInto_ok (h : d.root.WellFormed) (hw : d.writeInto p content = some d₁) :
    Keeps (· = d.destination p) d d₁ ∧ d₁.entry? p = some (.file content) ∧
      p.asksFolder = false ∧ p.fileName?.isSome := by
  simp only [writeInto, Option.bind_eq_bind, Option.bind_eq_some_iff] at hw
  obtain ⟨place, hplace, name, hname, hw⟩ := hw
  split at hw
  · cases hw
  · next husual =>
    have hask : p.asksFolder = false := by simp_all
    obtain ⟨lead, hlead, hfolder, hn⟩ := exists_folder_of_place? hplace hname
    split at hw
    · cases hw
    · next hnotFolder =>
      cases hw
      have hfree : d.root.standing? (lead ++ [name]) ≠ some .folder :=
        Directory.standing?_ne_folder (hlead ▸ hnotFolder)
      obtain ⟨hput, hthere⟩ :=
        Directory.keeps_put (e := .file content) h trivial (Entry.isBare_file content) hn hfolder
          hfree
      rw [← hlead] at hput hthere
      have hkeeps : Keeps (· = place) d
          { d with root := Directory.put (.file content) d.root place } := ⟨rfl, hput⟩
      refine ⟨place?_eq hplace ▸ hkeeps, ?_, hask, by simp [hname]⟩
      rw [entry?_eq_file_iff, hkeeps.destination, ← place?_eq hplace]
      exact ⟨hkeeps.place? hplace, hthere, hask⟩

/-- What a write may lose: the file that its own takes the place of. -/
structure Replaces (d : Disk) (p : Path) (q : Place) : Prop where
  place : q = d.destination p
  asksNoFolder : p.asksFolder = false
  hasName : p.fileName?.isSome

theorem write_eq (d : Disk) (p : Path) (content : ByteArray) : d.write p content =
    match (d.makeFolders p.parent).2, (d.makeFolders p.parent).1.writeInto p content with
    | true, some d => (d, none)
    | _, _ => ((d.makeFolders p.parent).1, some (.custom "cannot be written")) := rfl

theorem write_keeps (h : d.root.WellFormed) (p : Path) (content : ByteArray) :
    Keeps (d.Replaces p) d (d.write p content).1 := by
  have hmade := makeFolders_keeps h p.parent (d.Replaces p)
  rw [write_eq]
  split
  · next d₂ _ hw =>
    obtain ⟨hkeeps, -, hask, hname⟩ := writeInto_ok hmade.root.wellFormed hw
    refine hmade.trans (hkeeps.mono ?_)
    rintro q rfl
    exact ⟨hmade.destination p, hask, hname⟩
  · exact hmade

theorem write_ok (h : d.root.WellFormed) (hw : d.write p content = (d₁, none)) :
    d₁.entry? p = some (.file content) := by
  have hmade := makeFolders_keeps h p.parent fun _ => False
  rw [write_eq] at hw
  split at hw
  · next d₂ _ hinto =>
    cases hw
    exact (writeInto_ok hmade.root.wellFormed hinto).2.1
  · cases hw

-- ---------------------------------------------------------------------------
-- Removing
-- ---------------------------------------------------------------------------

theorem remove_keeps (h : d.root.WellFormed) (hfile : d.entry? p = some (.file c)) :
    Keeps (· = d.destination p) d (d.remove p) := by
  obtain ⟨hplace, hstands, -⟩ := entry?_eq_file_iff.mp hfile
  simp only [remove, hplace]
  exact ⟨rfl, Directory.keeps_remove h hstands⟩

/-- Removing files loses those that were asked for, whether or not it gets to
the end. -/
theorem removeFiles_keeps (h : d.root.WellFormed) (paths : List Path) :
    Keeps (fun q => ∃ p ∈ paths, q = d.destination p) d (d.removeFiles paths).1 := by
  induction paths generalizing d with
  | nil => exact .refl h _
  | cons p paths ih =>
    unfold removeFiles
    split
    · next c hfile =>
      have hone := remove_keeps h hfile
      refine (hone.mono ?_).trans ((ih hone.root.wellFormed).mono ?_)
      · rintro q rfl
        exact ⟨p, List.mem_cons_self, rfl⟩
      · rintro q ⟨p', hp', rfl⟩
        exact ⟨p', List.mem_cons_of_mem _ hp', hone.destination p'⟩
    · exact .refl h _

end Disk

end SceneDiagram
