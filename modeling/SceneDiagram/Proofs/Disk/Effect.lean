import SceneDiagram.Proofs.Disk

/-!
# What a change comes to

`Disk.Keeps` says what a change does not lose; here stands what it does. A write gives one
place its content (`file?_write`), and where the folders for it are there it does nothing
else (`write_again`). Removing files takes away what their paths lead to and nothing else
(`standing?_removeFiles`), and gets to the end where each leads to a file of its own
(`removeFiles_of_apart`).
-/

namespace SceneDiagram

open SceneDiagram.Path (reach IsName)

namespace Directory

variable {d d₁ d' : Directory} {place q : Place} {steps : List Path.Component} {c : ByteArray}

def file? (d : Directory) (place : Place) : Option ByteArray :=
  match d.standing? place with
  | some (.file content) => some content
  | _ => none

theorem file?_eq_some : d.file? q = some c ↔ d.standing? q = some (.file c) := by
  unfold file?
  split <;> simp_all

theorem file?_congr (h : d.standing? q = d'.standing? q) : d.file? q = d'.file? q := by
  rw [file?, file?, h]

-- ---------------------------------------------------------------------------
-- Making folders
-- ---------------------------------------------------------------------------

theorem file?_makeFolders (h : d.WellFormed) (hplace : d.standing? place = some .folder)
    (hsteps : ∀ n, .name n ∈ steps → IsName n) (q : Place) :
    (d.makeFolders place steps).1.file? q = d.file? q := by
  induction steps generalizing d place with
  | nil => rfl
  | cons step steps ih =>
    have hrest : ∀ n, .name n ∈ steps → IsName n := fun n hn => hsteps n (List.mem_cons_of_mem _ hn)
    cases step with
    | root => exact ih h hplace hrest
    | here => exact ih h hplace hrest
    | up => exact ih h (standing?_dropLast hplace) hrest
    | name n =>
      simp only [makeFolders]
      cases hnext : d.find? (place ++ [n]) with
      | some e =>
        cases e with
        | file content => rfl
        | folder entries =>
          refine ih h ?_ hrest
          rw [standing?_eq_map, hnext]
          rfl
      | none =>
        simp only
        split
        · have hnone : d.standing? (place ++ [n]) = none := by rw [standing?_eq_map, hnext]; rfl
          obtain ⟨hmade, hthere⟩ := keeps_put h (e := .folder .empty) trivial Entry.isBare_empty
            (hsteps n List.mem_cons_self) hplace (by simp [hnone])
          rw [ih hmade.wellFormed hthere hrest]
          -- A folder has come where nothing stood.
          have hput : (put (.folder .empty) d (place ++ [n])).standing? q =
              if q = place ++ [n] then some .folder else d.standing? q :=
            standing?_put Entry.isBare_empty (by simp) (by simpa using hplace) (by simp [hnone])
          by_cases hq : q = place ++ [n]
          · subst hq
            rw [if_pos rfl] at hput
            simp [file?, hput, hnone]
          · rw [if_neg hq] at hput
            exact file?_congr hput
        · rfl

theorem makeFolders_again (h : d.WellFormed) (hplace : d.standing? place = some .folder)
    (hsteps : ∀ n, .name n ∈ steps → IsName n) (hmade : d.makeFolders place steps = (d₁, true))
    (hthere : ∀ q, d₁.standing? q = some .folder → d'.standing? q = some .folder) :
    d'.makeFolders place steps = (d', true) := by
  induction steps generalizing d place with
  | nil => rfl
  | cons step steps ih =>
    have hrest : ∀ n, .name n ∈ steps → IsName n := fun n hn => hsteps n (List.mem_cons_of_mem _ hn)
    cases step with
    | root => exact ih h hplace hrest hmade
    | here => exact ih h hplace hrest hmade
    | up => exact ih h (standing?_dropLast hplace) hrest hmade
    | name n =>
      have hgoes {d₂ : Directory} (h₂ : d₂.WellFormed)
          (hnext : d₂.standing? (place ++ [n]) = some .folder)
          (hmade : d₂.makeFolders (place ++ [n]) steps = (d₁, true)) :
          d'.makeFolders place (.name n :: steps) = (d', true) := by
        have hkeeps := keeps_makeFolders h₂ hnext hrest fun _ => False
        rw [hmade] at hkeeps
        have hfolder := hthere _ (hkeeps.folder _ hnext)
        rw [← hasFolder_iff, hasFolder] at hfolder
        simp only [makeFolders]
        split at hfolder
        · next entries hfind =>
          rw [hfind]
          exact ih h₂ hnext hrest hmade
        · cases hfolder
      simp only [makeFolders] at hmade
      cases hnext : d.find? (place ++ [n]) with
      | some e =>
        rw [hnext] at hmade
        cases e with
        | file content => cases hmade
        | folder entries =>
          exact hgoes h (by rw [standing?_eq_map, hnext]; rfl) hmade
      | none =>
        simp only [hnext] at hmade
        split at hmade
        · have hnone : d.standing? (place ++ [n]) = none := by rw [standing?_eq_map, hnext]; rfl
          obtain ⟨hput, hnew⟩ := keeps_put h (e := .folder .empty) trivial Entry.isBare_empty
            (hsteps n List.mem_cons_self) hplace (by simp [hnone])
          exact hgoes hput.wellFormed hnew hmade
        · cases hmade

end Directory

namespace Disk

-- No proof here looks at how long a path may be.
attribute [local irreducible] Path.isUsable

variable {d d₁ d' : Disk} {p : Path} {q : Place} {content c : ByteArray} {paths : List Path}

-- ---------------------------------------------------------------------------
-- Writing
-- ---------------------------------------------------------------------------

theorem makeFolders_ok (h : d.makeFolders p = (d₁, true)) : p.isUsable ∧
    d₁ = { d with root := d₁.root } ∧ d.root.makeFolders [] (d.steps p) = (d₁.root, true) := by
  unfold makeFolders at h
  split at h
  · exact absurd (congrArg Prod.snd h) Bool.false_ne_true
  · next husable =>
    obtain ⟨hdisk, hmade⟩ := Prod.mk.inj h
    refine ⟨by simpa using husable, by rw [← hdisk], ?_⟩
    rw [← hdisk]
    exact Prod.ext rfl hmade

/-- What a write that succeeds has done. -/
theorem write_cases (h : d.root.WellFormed) (hw : d.write p content = (d₁, none)) :
    ∃ made lead name, d.makeFolders p.parent = (made, true) ∧
      made.place? p = some (lead ++ [name]) ∧ p.fileName? = some name ∧
      p.asksFolder = false ∧ isFileName name ∧ IsName name ∧
      made.root.standing? lead = some .folder ∧
      made.root.standing? (lead ++ [name]) ≠ some .folder ∧
      d₁ = { made with root := Directory.put (.file content) made.root (lead ++ [name]) } := by
  have hmade := makeFolders_keeps h p.parent fun _ => False
  rw [write_eq] at hw
  split at hw
  · next d₂ hok hinto =>
    cases hw
    simp only [writeInto, Option.bind_eq_bind, Option.bind_eq_some_iff] at hinto
    obtain ⟨place, hplace, name, hname, hinto⟩ := hinto
    split at hinto
    · cases hinto
    · next husual =>
      obtain ⟨lead, rfl, hfolder, hn⟩ := exists_folder_of_place? hplace hname
      split at hinto
      · cases hinto
      · next hnotFolder =>
        cases hinto
        have husual : p.asksFolder = false ∧ isFileName name := by simpa using husual
        exact ⟨_, lead, name, Prod.ext rfl hok, hplace, hname, husual.1, husual.2, hn, hfolder,
          Directory.standing?_ne_folder hnotFolder, rfl⟩
  · cases hw

theorem file?_write (h : d.root.WellFormed) (hw : d.write p content = (d₁, none)) (q : Place) :
    d₁.root.file? q = if q = d.destination p then some content else d.root.file? q := by
  obtain ⟨made, lead, name, hmade, hplace, -, -, -, -, hfolder, hfree, rfl⟩ := write_cases h hw
  have hkeeps := makeFolders_keeps h p.parent fun _ => False
  rw [hmade] at hkeeps
  have hsame : made.root.file? q = d.root.file? q := by
    have hroot : d.root.standing? [] = some .folder := rfl
    have hfiles := Directory.file?_makeFolders h hroot
      (fun _ => isName_of_mem_steps (d := d) (p := p.parent)) q
    rwa [(makeFolders_ok hmade).2.2] at hfiles
  rw [← hkeeps.destination p, ← place?_eq hplace]
  have hput := Directory.standing?_put (e := .file content) (q := q)
    (Entry.isBare_file content) (by simp) (by simpa using hfolder) hfree
  by_cases hq : q = lead ++ [name]
  · rw [if_pos hq] at hput ⊢
    exact Directory.file?_eq_some.mpr hput
  · rw [if_neg hq] at hput ⊢
    rw [← hsame, Directory.file?_congr hput]

theorem makeFolders_again (h : d.root.WellFormed) (hmade : d.makeFolders p = (d₁, true))
    (hdir : d'.workingDir = d.workingDir)
    (hfolders : ∀ q, d₁.root.standing? q = some .folder → d'.root.standing? q = some .folder) :
    d'.makeFolders p = (d', true) := by
  obtain ⟨husable, -, hsteps⟩ := makeFolders_ok hmade
  have hroot : d.root.standing? [] = some .folder := rfl
  have hagain := Directory.makeFolders_again h hroot (fun _ => isName_of_mem_steps) hsteps hfolders
  have hsame : d'.steps p = d.steps p := by rw [steps, steps, hdir]
  unfold makeFolders
  rw [if_neg (by simpa using husable), hsame, hagain]

theorem writeInto_of_place? (hplace : d.place? p = some q) (hname : p.fileName? = some n)
    (hask : p.asksFolder = false) (husual : isFileName n)
    (hfree : d.root.standing? q ≠ some .folder) : d.writeInto p content =
      some { d with root := Directory.put (.file content) d.root q } := by
  simp only [writeInto, hplace, hname, hask, husual, Option.bind_eq_bind, Option.bind_some,
    Bool.not_true, Bool.false_eq_true, or_self, ↓reduceIte]
  split
  · next entries hfind =>
    refine absurd ?_ hfree
    rw [Directory.standing?_eq_map, hfind]
    rfl
  · rfl

/-- Where a write has been done before, it only gives its place the content. -/
theorem write_again (content : ByteArray) (h : d.root.WellFormed) (hw : d.write p c = (d₁, none))
    (h' : d'.root.WellFormed) (hdir : d'.workingDir = d.workingDir)
    (hfolders : ∀ q, d₁.root.standing? q = some .folder → d'.root.standing? q = some .folder)
    (hfree : d'.root.standing? (d.destination p) ≠ some .folder) :
    ∃ after, d'.write p content = (after, none) ∧ after.workingDir = d.workingDir ∧
      after.root.WellFormed ∧ ∀ q, after.root.standing? q =
        if q = d.destination p then some (.file content) else d'.root.standing? q := by
  obtain ⟨made, lead, name, hmade, hplace, hname, hask, husual, hn, hfolder, hempty, rfl⟩ :=
    write_cases h hw
  have hkeeps := makeFolders_keeps h p.parent fun _ => False
  rw [hmade] at hkeeps
  -- What the first write put into the made folders is no folder.
  have hput (q : Place) := Directory.standing?_put (e := .file c) (q := q)
    (Entry.isBare_file c) (by simp) (by simpa using hfolder) hempty
  have hthere (q : Place) (hq : made.root.standing? q = some .folder) :
      d'.root.standing? q = some .folder := by
    refine hfolders q ?_
    rw [hput, if_neg]
    · exact hq
    · rintro rfl
      exact hempty hq
  have hdest : d.destination p = lead ++ [name] := by
    rw [← hkeeps.destination p, ← place?_eq hplace]
  rw [hdest] at hfree ⊢
  have hplace' : d'.place? p = some (lead ++ [name]) :=
    place?_mono (hdir.trans hkeeps.workingDir.symm) hthere hplace
  have hfolder' := hthere lead hfolder
  refine ⟨{ d' with root := Directory.put (.file content) d'.root (lead ++ [name]) }, ?_, hdir,
    h'.put (e := .file content) trivial ?_, fun q => ?_⟩
  · rw [write_eq, makeFolders_again h hmade hdir hthere,
      writeInto_of_place? hplace' hname hask husual hfree]
  · exact List.forall_mem_append.mpr ⟨h'.isName hfolder', by simpa using hn⟩
  · exact Directory.standing?_put (Entry.isBare_file content) (by simp) (by simpa using hfolder')
      hfree

-- ---------------------------------------------------------------------------
-- Removing
-- ---------------------------------------------------------------------------

theorem standing?_remove (h : d.root.WellFormed) (hfile : d.entry? p = some (.file c)) (q : Place) :
    (d.remove p).root.standing? q =
      if q = d.destination p then none else d.root.standing? q := by
  obtain ⟨hplace, hstands, -⟩ := entry?_eq_file_iff.mp hfile
  simp only [remove, hplace]
  exact Directory.standing?_remove h hstands

theorem removeFiles_cons_of_file (hfile : d.entry? p = some (.file c)) (paths : List Path) :
    d.removeFiles (p :: paths) = (d.remove p).removeFiles paths := by
  rw [removeFiles, hfile]

theorem standing?_removeFiles (h : d.root.WellFormed) (hr : d.removeFiles paths = (d₁, none))
    (q : Place) : d₁.root.standing? q =
      if q ∈ paths.map d.destination then none else d.root.standing? q := by
  induction paths generalizing d with
  | nil =>
    cases hr
    simp
  | cons p paths ih =>
    cases hentry : d.entry? p with
    | none => simp [removeFiles, hentry] at hr
    | some e =>
      cases e with
      | folder entries => simp [removeFiles, hentry] at hr
      | file c =>
        rw [removeFiles_cons_of_file hentry] at hr
        have hkeeps := remove_keeps h hentry
        have hdest : (d.remove p).destination = d.destination := funext hkeeps.destination
        rw [ih hkeeps.root.wellFormed hr, standing?_remove h hentry, hdest, List.map_cons]
        simp only [List.mem_cons]
        split <;> split <;> simp_all

theorem removeFiles_of_apart (h : d.root.WellFormed)
    (hfiles : ∀ p ∈ paths, ∃ c, d.entry? p = some (.file c))
    (hapart : (paths.map d.destination).Nodup) : (d.removeFiles paths).2 = none := by
  induction paths generalizing d with
  | nil => rfl
  | cons p paths ih =>
    obtain ⟨⟨c, hfile⟩, hfiles⟩ := List.forall_mem_cons.mp hfiles
    obtain ⟨hp, hapart⟩ := List.nodup_cons.mp hapart
    have hkeeps := remove_keeps h hfile
    rw [removeFiles_cons_of_file hfile]
    refine ih hkeeps.root.wellFormed (fun p' hp' => ?_) ?_
    · obtain ⟨c', hfile'⟩ := hfiles p' hp'
      refine ⟨c', hkeeps.stays hfile' fun heq => hp ?_⟩
      rw [← heq]
      exact List.mem_map_of_mem hp'
    · rwa [show (d.remove p).destination = d.destination from funext hkeeps.destination]

theorem isUsable_of_place? (h : d.place? p = some q) : p.text ≠ "" ∧ p.isUsable := by
  unfold Disk.place? at h
  split at h
  · cases h
  · next hp => simpa using hp

theorem isUsable_of_removeFiles (hr : (d.removeFiles paths).2 = none) :
    ∀ p ∈ paths, p.isUsable := by
  induction paths generalizing d with
  | nil => exact nofun
  | cons p paths ih =>
    unfold removeFiles at hr
    split at hr
    · next c hfile =>
      exact List.forall_mem_cons.mpr
        ⟨(isUsable_of_place? (entry?_eq_file_iff.mp hfile).1).2, ih hr⟩
    · cases hr

theorem file?_removeFiles (h : d.root.WellFormed) (paths : List Path)
    (hq : (d.removeFiles paths).1.root.file? q = some c) : d.root.file? q = some c := by
  induction paths generalizing d with
  | nil => exact hq
  | cons p paths ih =>
    unfold removeFiles at hq
    split at hq
    · next content hfile =>
      have hone := ih (remove_keeps h hfile).root.wellFormed hq
      rw [Directory.file?_eq_some, standing?_remove h hfile] at hone
      split at hone
      · cases hone
      · exact Directory.file?_eq_some.mpr hone
    · exact hq

end Disk

end SceneDiagram
