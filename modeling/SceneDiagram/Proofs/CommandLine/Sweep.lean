import SceneDiagram.Proofs.CommandLine.Documents

/-!
# What a run leaves

`run_sweeps`: where a pass fails, the run takes all files away that are marked as documents
below the output directory, and nothing else; where the run succeeds, those are left that
the documents of the pass were written to. A path can be too long to be followed, and then
the sweep fails itself (`not_run_sweeps`).
-/

namespace SceneDiagram.CommandLine

variable {job : Job} {disk after : Disk} {keep : List Path} {below q : Place}

namespace Job

-- ---------------------------------------------------------------------------
-- After a pass that failed
-- ---------------------------------------------------------------------------

/-- The disk holds this place for documents. -/
def MarksPlace (job : Job) (disk : Disk) (q : Place) : Prop :=
  ∃ below, job.IsMarked below ∧ q = disk.destination job.target ++ below

theorem StaleAt.marksPlace (h : job.StaleAt disk keep q) : job.MarksPlace disk q := by
  obtain ⟨below, hstale, hq⟩ := h
  exact ⟨below, hstale.marked, hq⟩

/-- What a run leaves of a disk on which the pass failed. -/
structure Clears (job : Job) (disk : Disk) (failure : Failure) (o : Outcome) : Prop where
  nothingNew : ∀ q c, o.disk.root.file? q = some c → disk.root.file? q = some c
  others : ∀ q, ¬ job.MarksPlace disk q → o.disk.root.file? q = disk.root.file? q
  cleared : job.InReach disk [] →
    ∀ below c, job.IsMarked below → ¬ o.disk.Under job.target below (.file c)
  failure : job.InReach disk [] → o.failure = some failure
  /-- The clean-up fails where something is out of reach, and hides why the pass failed. -/
  outOfReach : ¬ job.InReach disk [] → ∃ fault, o.failure = some (.io fault)

theorem file?_eq_of_keeps (hkeeps : disk.Keeps lost after) (hq : ¬ lost q)
    (hnew : ∀ c, after.root.file? q = some c → disk.root.file? q = some c) :
    after.root.file? q = disk.root.file? q := by
  refine Option.ext fun c => ⟨hnew c, fun hc => ?_⟩
  rw [Directory.file?_eq_some] at hc ⊢
  exact (hkeeps.root.file q c hc).resolve_left hq

theorem run_of_failed {failure : Failure} (h : disk.root.WellFormed)
    (hgen : job.generate disk = .error failure) : job.Clears disk failure (job.run disk) := by
  have hrun : job.run disk =
      ⟨(job.sweep [] disk).disk, (job.sweep [] disk).failure <|> some failure⟩ := by
    rw [run, hgen]
  rw [hrun]
  refine ⟨fun q c hq => file?_sweep h hq, fun q hq => ?_, fun hreach below c hmarked hunder => ?_,
    fun hreach => ?_, fun hreach => ?_⟩
  · exact file?_eq_of_keeps (sweep_keeps h job []) (fun hstale => hq hstale.marksPlace)
      fun c hc => file?_sweep h hc
  · have hs := Outcome.eq_of_isNone (o := job.sweep [] disk)
      (Option.isNone_iff_eq_none.mpr (sweep_of_inReach h hreach))
    obtain ⟨hbefore, hnot⟩ := under_of_sweep h hs hunder
    exact hnot ⟨⟨c, hbefore⟩, hmarked, by simp⟩
  · rw [sweep_of_inReach h hreach]
    rfl
  · rcases sweep_failure job [] disk with hnone | ⟨fault, hfault⟩
    · exact absurd (inReach_of_sweep h hnone) hreach
    · exact ⟨fault, by rw [hfault]; rfl⟩

-- ---------------------------------------------------------------------------
-- After a run that succeeded
-- ---------------------------------------------------------------------------

def textAt? (job : Job) (disk : Disk) (q : Place) : List Diagram → Option ByteArray
  | [] => none
  | d :: diagrams => (job.textAt? disk q diagrams).or
      (if q = disk.destination (job.documentPath d) then some d.text.toUTF8 else none)

theorem textAt?_congr (h : after.workingDir = disk.workingDir) (q : Place)
    (diagrams : List Diagram) : job.textAt? after q diagrams = job.textAt? disk q diagrams := by
  induction diagrams with
  | nil => rfl
  | cons d diagrams ih =>
    rw [textAt?, textAt?, ih, Disk.destination_of_workingDir h]

theorem textAt?_eq_none {diagrams : List Diagram}
    (h : ∀ d ∈ diagrams, q ≠ disk.destination (job.documentPath d)) :
    job.textAt? disk q diagrams = none := by
  induction diagrams with
  | nil => rfl
  | cons d diagrams ih =>
    obtain ⟨hd, hdiagrams⟩ := List.forall_mem_cons.mp h
    rw [textAt?, ih hdiagrams, if_neg hd, Option.or_none]

theorem textAt?_isSome (job : Job) (disk : Disk) {diagrams : List Diagram} (hd : d ∈ diagrams) :
    (job.textAt? disk (disk.destination (job.documentPath d)) diagrams).isSome := by
  induction diagrams with
  | nil => cases hd
  | cons first diagrams ih =>
    rw [textAt?, Option.isSome_or]
    rcases List.mem_cons.mp hd with rfl | hd
    · simp
    · simp [ih hd]

theorem file?_write {diagrams : List Diagram} (h : disk.root.WellFormed)
    (hw : job.write disk diagrams = ⟨after, none⟩) (q : Place) :
    after.root.file? q = (job.textAt? disk q diagrams).or (disk.root.file? q) := by
  induction diagrams generalizing disk with
  | nil =>
    cases hw
    rfl
  | cons d diagrams ih =>
    rw [write_cons] at hw
    split at hw
    · cases hw
    · next disk₁ hone =>
      have hkeeps := disk.write_keeps h (job.documentPath d) d.text.toUTF8
      rw [hone] at hkeeps
      rw [ih hkeeps.root.wellFormed hw, textAt?_congr hkeeps.workingDir, Disk.file?_write h hone,
        textAt?, Option.or_assoc]
      by_cases hq : q = disk.destination (job.documentPath d)
      · rw [if_pos hq, if_pos hq, Option.some_or]
      · rw [if_neg hq, if_neg hq, Option.none_or]

theorem replaces_of_write (h : disk.root.WellFormed) (hw : job.write disk diagrams = ⟨after, none⟩)
    (hd : d ∈ diagrams) :
    disk.Replaces (job.documentPath d) (disk.destination (job.documentPath d)) := by
  induction diagrams generalizing disk with
  | nil => cases hd
  | cons first diagrams ih =>
    rw [write_cons] at hw
    split at hw
    · cases hw
    · next disk₁ hone =>
      have hkeeps := disk.write_keeps h (job.documentPath first) first.text.toUTF8
      rw [hone] at hkeeps
      rcases List.mem_cons.mp hd with rfl | hd
      · obtain ⟨_, _, name, -, -, hname, hask, -⟩ := Disk.write_cases h hone
        exact ⟨rfl, hask, Option.isSome_of_eq_some hname⟩
      · have hrest := ih hkeeps.root.wellFormed hw hd
        exact ⟨rfl, hrest.asksNoFolder, hrest.hasName⟩

/-- What a run that wrote these documents leaves. -/
structure Settles (job : Job) (disk : Disk) (diagrams : List Diagram) (after : Disk) : Prop where
  marked : ∀ below c, job.IsMarked below → after.Under job.target below (.file c) →
    ∃ d ∈ diagrams, (job.documentPath d).same (below.foldl Path.child job.target)
  others : ∀ q, ¬ job.MarksPlace disk q →
    (∀ d ∈ diagrams, q ≠ disk.destination (job.documentPath d)) →
    after.root.file? q = disk.root.file? q

theorem run_of_written (h : disk.root.WellFormed) (hrun : job.run disk = ⟨after, none⟩) :
    ∃ gen, job.generate disk = .ok gen ∧ job.Settles disk gen.diagrams after := by
  obtain ⟨gen, written, hgen, hw, hsweep⟩ := run_ok hrun
  have hkeeps := write_keeps h job gen.diagrams
  rw [hw] at hkeeps
  have hwell := hkeeps.root.wellFormed
  refine ⟨gen, hgen, fun below c hmarked hunder => ?_, fun q hq hfree => ?_⟩
  · obtain ⟨hbefore, hnot⟩ := under_of_sweep hwell hsweep hunder
    have hkept : (gen.diagrams.map job.documentPath).any
        (below.foldl Path.child job.target).same := by
      by_contra hkept
      exact hnot ⟨⟨c, hbefore⟩, hmarked, hkept⟩
    obtain ⟨p, hp, hsame⟩ := List.any_eq_true.mp hkept
    obtain ⟨d, hd, rfl⟩ := List.mem_map.mp hp
    exact ⟨d, hd, beq_iff_eq.mpr (beq_iff_eq.mp hsame).symm⟩
  · have hwritten := file?_write h hw q
    rw [textAt?_eq_none hfree, Option.none_or] at hwritten
    rcases standing?_sweep hwell hsweep q with ⟨hstale, -⟩ | ⟨-, hsame⟩
    · refine absurd hstale.marksPlace ?_
      rwa [MarksPlace, hkeeps.destination]
    · rw [Directory.file?_congr hsame, hwritten]

end Job

theorem run_sweeps (h : disk.root.WellFormed)
    (hjob : Job.ofArguments args settingsDir disk = .ok job) :
    (∀ failure, job.generate disk = .error failure →
      job.Clears disk failure (run args settingsDir disk)) ∧
    ∀ after, run args settingsDir disk = ⟨after, none⟩ →
      ∃ gen, job.generate disk = .ok gen ∧ job.Settles disk gen.diagrams after := by
  have hrun : run args settingsDir disk = job.run disk := by rw [run, hjob]
  rw [hrun]
  exact ⟨fun failure => Job.run_of_failed h, fun after => Job.run_of_written h⟩

def broken : Disk where
  root := .folder "p" (.file "A.g.puml" .empty (.file "A.tscn" "[".toUTF8 .empty)) .empty
  workingDir := ⟨"/p"⟩

theorem run_sweeps_broken : ∃ job failure, broken.root.WellFormed ∧
    Job.ofArguments {} none broken = .ok job ∧ job.generate broken = .error failure ∧
    job.Clears broken failure (run {} none broken) ∧
    broken.exists? ⟨"A.g.puml"⟩ ∧ ¬ Disk.exists? (run {} none broken).disk ⟨"A.g.puml"⟩ := by
  have hwell : broken.root.WellFormed := by decide +kernel
  have hfails : (Job.ofArguments {} none broken).toOption.map
      (fun job => (job.generate broken).toOption.isNone) = some true := by decide +kernel
  cases hjob : Job.ofArguments {} none broken with
  | error failure => simp [hjob, Except.toOption] at hfails
  | ok job =>
    cases hgen : job.generate broken with
    | ok gen => simp [hjob, hgen, Except.toOption] at hfails
    | error failure =>
      exact ⟨job, failure, hwell, rfl, hgen, (run_sweeps hwell hjob).1 failure hgen,
        by decide +kernel, by decide +kernel⟩

def nested : Nat → Directory
  | 0 => .file "old.g.puml" .empty .empty
  | depth + 1 => .folder "d" (nested depth) .empty

def tooDeep : Disk where
  root := .folder "o" (nested 4096) (.folder "p" .empty .empty)
  workingDir := ⟨"/"⟩

theorem wellFormed_nested (depth : Nat) : (nested depth).WellFormed := by
  induction depth with
  | zero => decide +kernel
  | succ depth ih => exact ⟨by decide, nofun, ih, trivial⟩

def downTo (depth : Nat) : Place := List.replicate depth "d"

theorem standing?_nested (depth : Nat) : (nested (depth + 1)).standing? ("d" :: downTo depth) =
    some .folder := by
  induction depth with
  | zero => rfl
  | succ depth ih =>
    rw [nested, Directory.standing?_cons, Directory.get?, if_pos rfl]
    exact ih

theorem wellFormed_tooDeep : tooDeep.root.WellFormed :=
  ⟨by decide, by decide, wellFormed_nested 4096, by decide, nofun, trivial, trivial⟩

theorem not_inReach_tooDeep (htarget : job.target = ⟨"/o"⟩) : ¬ job.InReach tooDeep [] := by
  intro hreach
  have hplace : tooDeep.place? job.target = some ["o"] := by
    rw [htarget]
    decide +kernel
  have hnames : ∀ n ∈ "d" :: downTo 4095, n = "d" :=
    List.forall_mem_cons.mpr ⟨rfl, fun n => List.eq_of_mem_replicate⟩
  have hstands : tooDeep.root.standing? (["o"] ++ "d" :: downTo 4095) = some .folder :=
    (Directory.standing?_cons_self (e := .folder (nested 4096))).trans (standing?_nested 4095)
  have husable := hreach.folders _ (Disk.under_of_standing? hplace hstands)
    fun n hn => hnames n hn ▸ by decide
  have hlong := Path.size_foldl_child (fun n hn => hnames n hn ▸ by decide) job.target
  simp only [Path.isUsable, Bool.and_eq_true, decide_eq_true_eq] at husable
  have hlength : (downTo 4095).length = 4095 := List.length_replicate
  rw [List.length_cons, hlength] at hlong
  omega

def tooDeepArguments : Arguments :=
  { project := "p", declarations := some "missing.toml", outputDir := some "o" }

/-- The clean-up fails where paths are too long, and its failure stands for that of the pass. -/
theorem not_run_sweeps : ¬ ∀ (args : Arguments) (settingsDir : Option Path) (disk : Disk)
    (job : Job) (failure : Failure), disk.root.WellFormed →
    Job.ofArguments args settingsDir disk = .ok job → job.generate disk = .error failure →
    (∀ below c, job.IsMarked below →
      ¬ Disk.Under (run args settingsDir disk).disk job.target below (.file c)) ∧
    (run args settingsDir disk).failure = some failure := by
  intro h
  have hfacts : (Job.ofArguments tooDeepArguments none tooDeep).toOption.map (fun job =>
      (job.target, (match job.generate tooDeep with
        | .error (.config _) => true
        | _ => false))) = some (⟨"/o"⟩, true) := by decide +kernel
  cases hjob : Job.ofArguments tooDeepArguments none tooDeep with
  | error failure => simp [hjob, Except.toOption] at hfacts
  | ok job =>
    rw [hjob] at hfacts
    obtain ⟨htarget, hconfig⟩ := Prod.mk.inj (Option.some.inj hfacts)
    split at hconfig
    · next message hgen =>
      have hclaim := (h _ _ _ job _ wellFormed_tooDeep hjob hgen).2
      have hrun : run tooDeepArguments none tooDeep = job.run tooDeep := by rw [run, hjob]
      obtain ⟨fault, hfault⟩ :=
        (Job.run_of_failed wellFormed_tooDeep hgen).outOfReach (not_inReach_tooDeep htarget)
      rw [hrun, hfault] at hclaim
      cases hclaim
    · cases hconfig

end SceneDiagram.CommandLine
