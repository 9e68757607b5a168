import SceneDiagram.CommandLine.Run
import SceneDiagram.Proofs.Basic
import SceneDiagram.Proofs.Disk.Below

/-!
# What the sweep takes away

The sweep looks at the files below the output directory that are not hidden and end like
documents. Those that it is not to keep are stale (`Job.Stale`). It takes stale files only
(`Job.sweep_keeps`), and all of them where it gets to the end (`Job.standing?_sweep`), which
it does where all that it comes across can be reached (`Job.sweep_of_inReach`,
`Job.inReach_of_sweep`).
-/

namespace SceneDiagram.CommandLine

variable {job : Job} {disk after : Disk} {dir : Path} {suffix : String} {found keep : List Path}
  {below q : Place}

-- ---------------------------------------------------------------------------
-- Finding documents
-- ---------------------------------------------------------------------------

theorem not_under_of_not_exists (h : disk.exists? dir = false) : ¬ disk.Under dir below s := by
  rintro ⟨e, he, -⟩
  simp [Disk.exists?, he] at h

theorem findDocuments_cases (hfound : findDocuments disk dir suffix = .ok found) :
    disk.exists? dir = false ∧ found = [] ∨
      ∃ all, disk.filesWhere (!isHidden ·) dir = .ok all ∧
        found = all.filter (hasSuffix suffix) := by
  unfold findDocuments at hfound
  split at hfound
  · obtain ⟨all, hall, hfilter⟩ := bind_ok.mp hfound
    cases hfilter
    exact .inr ⟨all, hall, rfl⟩
  · next hnone =>
    cases hfound
    exact .inl ⟨by simpa using hnone, rfl⟩

theorem mem_of_findDocuments (h : disk.root.WellFormed)
    (hfound : findDocuments disk dir suffix = .ok found) (p : Path) :
    p ∈ found ↔ ∃ below c, disk.Under dir below (.file c) ∧ (∀ n ∈ below, !isHidden n) ∧
      hasSuffix suffix p ∧ p = below.foldl Path.child dir := by
  obtain ⟨hnone, rfl⟩ | ⟨all, hall, rfl⟩ := findDocuments_cases hfound
  · simp [not_under_of_not_exists hnone]
  · rw [List.mem_filter, Disk.mem_of_filesWhere h hall]
    grind

theorem nodup_findDocuments (h : disk.root.WellFormed)
    (hfound : findDocuments disk dir suffix = .ok found) : (found.map disk.destination).Nodup := by
  obtain ⟨-, rfl⟩ | ⟨all, hall, rfl⟩ := findDocuments_cases hfound
  · exact List.nodup_nil
  · exact (Disk.nodup_filesWhere h hall).sublist (List.filter_sublist.map _)

namespace Job

/-- A place below the output directory that is taken for a document: nothing on the way
to it is hidden, and its name ends with the suffix. -/
structure IsMarked (job : Job) (below : Place) : Prop where
  shown : ∀ n ∈ below, !isHidden n
  named : hasSuffix job.config.diagram.outputSuffix (below.foldl Path.child job.target)

/-- A file that is taken for a document and not to be kept. -/
structure Stale (job : Job) (disk : Disk) (keep : List Path) (below : Place) : Prop where
  file : ∃ c, disk.Under job.target below (.file c)
  marked : job.IsMarked below
  notKept : ¬ keep.any (below.foldl Path.child job.target).same

def StaleAt (job : Job) (disk : Disk) (keep : List Path) (q : Place) : Prop :=
  ∃ below, job.Stale disk keep below ∧ q = disk.destination job.target ++ below

/-- The folders that the sweep goes through and the files that it is to remove have paths
that can be followed. -/
structure InReach (job : Job) (disk : Disk) (keep : List Path) : Prop where
  folders : ∀ below, disk.Under job.target below .folder → (∀ n ∈ below, !isHidden n) →
    (below.foldl Path.child job.target).isUsable
  files : ∀ below, job.Stale disk keep below → (below.foldl Path.child job.target).isUsable

-- ---------------------------------------------------------------------------
-- Sweeping
-- ---------------------------------------------------------------------------

def outdated (keep found : List Path) : List Path := found.filter fun p => !keep.any p.same

theorem sweep_of_found
    (hfound : findDocuments disk job.target job.config.diagram.outputSuffix = .ok found) :
    job.sweep keep disk = ⟨(disk.removeFiles (outdated keep found)).1,
      (disk.removeFiles (outdated keep found)).2.map Failure.io⟩ := by
  rw [sweep, hfound]
  rfl

theorem mem_outdated (h : disk.root.WellFormed)
    (hfound : findDocuments disk job.target job.config.diagram.outputSuffix = .ok found)
    (p : Path) : p ∈ outdated keep found ↔ ∃ below, job.Stale disk keep below ∧
      p = below.foldl Path.child job.target := by
  rw [outdated, List.mem_filter, mem_of_findDocuments h hfound]
  constructor
  · rintro ⟨⟨below, c, hunder, hshown, hnamed, rfl⟩, hkeep⟩
    exact ⟨below, ⟨⟨c, hunder⟩, ⟨hshown, hnamed⟩, by simpa using hkeep⟩, rfl⟩
  · rintro ⟨below, ⟨⟨c, hunder⟩, hmarked, hkeep⟩, rfl⟩
    exact ⟨⟨below, c, hunder, hmarked.shown, hmarked.named, rfl⟩, by simpa using hkeep⟩

theorem Stale.destination (hwell : disk.root.WellFormed) (h : job.Stale disk keep below) :
    disk.destination (below.foldl Path.child job.target) =
      disk.destination job.target ++ below := by
  obtain ⟨c, hunder⟩ := h.file
  exact Disk.destination_foldl_child disk job.target (hunder.isName hwell)

theorem mem_destination_outdated (h : disk.root.WellFormed)
    (hfound : findDocuments disk job.target job.config.diagram.outputSuffix = .ok found) :
    q ∈ (outdated keep found).map disk.destination ↔ job.StaleAt disk keep q := by
  rw [List.mem_map]
  constructor
  · rintro ⟨p, hp, rfl⟩
    obtain ⟨below, hstale, rfl⟩ := (mem_outdated h hfound p).mp hp
    exact ⟨below, hstale, hstale.destination h⟩
  · rintro ⟨below, hstale, rfl⟩
    exact ⟨_, (mem_outdated h hfound _).mpr ⟨below, hstale, rfl⟩, hstale.destination h⟩

/-- Whether or not it gets to the end, the sweep takes stale files only. -/
theorem sweep_keeps (h : disk.root.WellFormed) (job : Job) (keep : List Path) :
    disk.Keeps (job.StaleAt disk keep) (job.sweep keep disk).disk := by
  cases hfound : findDocuments disk job.target job.config.diagram.outputSuffix with
  | error fault =>
    rw [sweep, hfound]
    exact .refl h _
  | ok found =>
    rw [sweep_of_found hfound]
    refine (Disk.removeFiles_keeps h _).mono ?_
    rintro q ⟨p, hp, rfl⟩
    exact (mem_destination_outdated h hfound).mp (List.mem_map_of_mem hp)

theorem file?_sweep (h : disk.root.WellFormed)
    (hq : (job.sweep keep disk).disk.root.file? q = some c) : disk.root.file? q = some c := by
  cases hfound : findDocuments disk job.target job.config.diagram.outputSuffix with
  | error fault => rwa [sweep, hfound] at hq
  | ok found =>
    rw [sweep_of_found hfound] at hq
    exact Disk.file?_removeFiles h _ hq

/-- A sweep that gets to the end takes the stale files away and nothing else. -/
theorem standing?_sweep (h : disk.root.WellFormed) (hs : job.sweep keep disk = ⟨after, none⟩)
    (q : Place) : job.StaleAt disk keep q ∧ after.root.standing? q = none ∨
      ¬ job.StaleAt disk keep q ∧ after.root.standing? q = disk.root.standing? q := by
  cases hfound : findDocuments disk job.target job.config.diagram.outputSuffix with
  | error fault =>
    rw [sweep, hfound] at hs
    cases hs
  | ok found =>
    rw [sweep_of_found hfound] at hs
    obtain ⟨hdisk, hfailure⟩ := Outcome.mk.inj hs
    have hr : disk.removeFiles (outdated keep found) = (after, none) :=
      Prod.ext hdisk (Option.map_eq_none_iff.mp hfailure)
    rw [Disk.standing?_removeFiles h hr]
    by_cases hq : q ∈ (outdated keep found).map disk.destination
    · exact .inl ⟨(mem_destination_outdated h hfound).mp hq, if_pos hq⟩
    · exact .inr ⟨fun hstale => hq ((mem_destination_outdated h hfound).mpr hstale), if_neg hq⟩

theorem standing?_of_sweep (h : disk.root.WellFormed) (hs : job.sweep keep disk = ⟨after, none⟩)
    (hq : after.root.standing? q = some s) :
    disk.root.standing? q = some s ∧ ¬ job.StaleAt disk keep q := by
  rcases standing?_sweep h hs q with ⟨-, hnone⟩ | ⟨hnot, hsame⟩
  · rw [hnone] at hq
    cases hq
  · exact ⟨hsame ▸ hq, hnot⟩

theorem under_of_sweep (h : disk.root.WellFormed) (hs : job.sweep keep disk = ⟨after, none⟩)
    (hunder : after.Under job.target below s) :
    disk.Under job.target below s ∧ ¬ job.Stale disk keep below := by
  have hkeeps := sweep_keeps h job keep
  rw [hs] at hkeeps
  refine ⟨hunder.mono hkeeps.workingDir.symm fun q s hq => (standing?_of_sweep h hs hq).1, ?_⟩
  intro hstale
  exact (standing?_of_sweep h hs hunder.standing?).2 ⟨below, hstale, by rw [hkeeps.destination]⟩

theorem sweep_of_inReach (h : disk.root.WellFormed) (hreach : job.InReach disk keep) :
    (job.sweep keep disk).failure = none := by
  obtain ⟨found, hfound⟩ :
      ∃ found, findDocuments disk job.target job.config.diagram.outputSuffix = .ok found := by
    unfold findDocuments
    split
    · next hexists =>
      obtain ⟨all, hall⟩ : ∃ all, visibleFiles disk job.target = .ok all :=
        Disk.exists_filesWhere h hexists hreach.folders
      exact ⟨_, by rw [hall]; rfl⟩
    · exact ⟨[], rfl⟩
  have hfiles : ∀ p ∈ outdated keep found, ∃ c, disk.entry? p = some (.file c) := by
    intro p hp
    obtain ⟨below, hstale, rfl⟩ := (mem_outdated h hfound p).mp hp
    obtain ⟨c, hunder⟩ := hstale.file
    exact ⟨c, hunder.entry?_eq (hunder.isName h) (hreach.files below hstale)⟩
  have hapart : ((outdated keep found).map disk.destination).Nodup :=
    (nodup_findDocuments h hfound).sublist (List.filter_sublist.map _)
  rw [sweep_of_found hfound, Disk.removeFiles_of_apart h hfiles hapart]
  rfl

theorem sweep_failure (job : Job) (keep : List Path) (disk : Disk) :
    (job.sweep keep disk).failure = none ∨
      ∃ fault, (job.sweep keep disk).failure = some (.io fault) := by
  unfold sweep
  split
  · exact .inr ⟨_, rfl⟩
  · next found _ =>
    cases hr : (disk.removeFiles (outdated keep found)).2 with
    | none => exact .inl (congrArg (Option.map Failure.io) hr)
    | some fault => exact .inr ⟨fault, congrArg (Option.map Failure.io) hr⟩

theorem inReach_of_sweep (h : disk.root.WellFormed) (hs : (job.sweep keep disk).failure = none) :
    job.InReach disk keep := by
  cases hfound : findDocuments disk job.target job.config.diagram.outputSuffix with
  | error fault =>
    rw [sweep, hfound] at hs
    cases hs
  | ok found =>
    rw [sweep_of_found hfound] at hs
    refine ⟨fun below hunder hshown => ?_, fun below hstale => ?_⟩
    · obtain ⟨hnone, -⟩ | ⟨all, hall, -⟩ := findDocuments_cases hfound
      · exact absurd hunder (not_under_of_not_exists hnone)
      · exact Disk.isUsable_of_filesWhere h hall hunder hshown
    · refine Disk.isUsable_of_removeFiles (Option.map_eq_none_iff.mp hs) _ ?_
      exact (mem_outdated h hfound _).mpr ⟨below, hstale, rfl⟩

end Job

end SceneDiagram.CommandLine
