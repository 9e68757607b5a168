import SceneDiagram.Proofs.CommandLine.Reading
import SceneDiagram.Proofs.CommandLine.Sweep

/-!
# Running twice

A pass that is made again writes and sweeps to where it got before, whatever its documents
are (`Job.run_of_same_pass`). `run_again`: with the usual names of documents and scenes the second
run makes the same pass, so it changes nothing. Only what the first run takes away or makes
at the places where a run looks for its project and settings can come in between
(`not_run_again`).
-/

namespace SceneDiagram.CommandLine

variable {disk after written again : Disk} {job : Job} {gen : Generation} {d : Diagram}
  {diagrams : List Diagram} {keep : List Path} {below q : Place}

namespace Job

-- ---------------------------------------------------------------------------
-- Writing again
-- ---------------------------------------------------------------------------

theorem exists_of_textAt? (h : job.textAt? disk q diagrams = some c) :
    ∃ d ∈ diagrams, q = disk.destination (job.documentPath d) := by
  by_contra hnone
  push Not at hnone
  rw [textAt?_eq_none hnone] at h
  cases h

theorem standing?_written (h : disk.root.WellFormed)
    (hw : job.write disk diagrams = ⟨written, none⟩)
    (hq : job.textAt? disk q diagrams = some c) : written.root.standing? q = some (.file c) := by
  rw [← Directory.file?_eq_some, file?_write h hw, hq, Option.some_or]

theorem standing?_document (h : disk.root.WellFormed)
    (hw : job.write disk diagrams = ⟨written, none⟩) (hd : d ∈ diagrams) :
    ∃ c, written.root.standing? (disk.destination (job.documentPath d)) = some (.file c) := by
  obtain ⟨c, hc⟩ := Option.isSome_iff_exists.mp (textAt?_isSome job disk hd)
  exact ⟨c, standing?_written h hw hc⟩

theorem write_again (h : disk.root.WellFormed) (hw : job.write disk diagrams = ⟨written, none⟩)
    (ha : after.root.WellFormed) (hdir : after.workingDir = disk.workingDir)
    (hfolders : ∀ q, written.root.standing? q = some .folder →
      after.root.standing? q = some .folder)
    (hfree : ∀ d ∈ diagrams,
      after.root.standing? (disk.destination (job.documentPath d)) ≠ some .folder) :
    ∃ again, job.write after diagrams = ⟨again, none⟩ ∧ again.workingDir = disk.workingDir ∧
      again.root.WellFormed ∧ ∀ q, again.root.standing? q =
        ((job.textAt? disk q diagrams).map .file).or (after.root.standing? q) := by
  induction diagrams generalizing disk after with
  | nil => exact ⟨after, write_nil job after, hdir, ha, fun q => rfl⟩
  | cons d diagrams ih =>
    rw [write_cons] at hw
    split at hw
    · cases hw
    · next disk₁ hone =>
      have hkeeps := disk.write_keeps h (job.documentPath d) d.text.toUTF8
      rw [hone] at hkeeps
      have hwell := hkeeps.root.wellFormed
      have hrest := write_keeps hwell job diagrams
      rw [hw] at hrest
      obtain ⟨hfirst, hfree⟩ := List.forall_mem_cons.mp hfree
      obtain ⟨after₁, hone', hdir₁, ha₁, hstands⟩ := Disk.write_again d.text.toUTF8 h hone
        ha hdir (fun q hq => hfolders q (hrest.root.folder q hq)) hfirst
      have hfolders₁ : ∀ q, written.root.standing? q = some .folder →
          after₁.root.standing? q = some .folder := by
        intro q hq
        have hother : q ≠ disk.destination (job.documentPath d) := by
          intro heq
          exact hfirst (heq ▸ hfolders q hq)
        rw [hstands, if_neg hother]
        exact hfolders q hq
      have hfree₁ : ∀ d' ∈ diagrams,
          after₁.root.standing? (disk₁.destination (job.documentPath d')) ≠ some .folder := by
        intro d' hd'
        rw [hkeeps.destination, hstands]
        split
        · exact nofun
        · exact hfree d' hd'
      obtain ⟨again, hagain, hdir', hwell', hrest'⟩ :=
        ih hwell hw ha₁ (hdir₁.trans hkeeps.workingDir.symm) hfolders₁ hfree₁
      refine ⟨again, ?_, hdir'.trans hkeeps.workingDir, hwell', fun q => ?_⟩
      · rw [write_cons, hone']
        exact hagain
      · rw [hrest', textAt?_congr hkeeps.workingDir, hstands, textAt?]
        by_cases hq : q = disk.destination (job.documentPath d)
        · cases job.textAt? disk q diagrams <;> simp [hq]
        · cases job.textAt? disk q diagrams <;> simp [hq]

-- ---------------------------------------------------------------------------
-- Sweeping again
-- ---------------------------------------------------------------------------

theorem Stale.mono (h : job.Stale again keep below) (hdir : disk.workingDir = again.workingDir)
    (hstands : ∀ q s, again.root.standing? q = some s → disk.root.standing? q = some s) :
    job.Stale disk keep below := by
  obtain ⟨c, hunder⟩ := h.file
  exact ⟨⟨c, hunder.mono hdir hstands⟩, h.marked, h.notKept⟩

theorem StaleAt.mono (h : job.StaleAt again keep q) (hdir : disk.workingDir = again.workingDir)
    (hstands : ∀ q s, again.root.standing? q = some s → disk.root.standing? q = some s) :
    job.StaleAt disk keep q := by
  obtain ⟨below, hstale, rfl⟩ := h
  exact ⟨below, hstale.mono hdir hstands, by rw [Disk.destination_of_workingDir hdir]⟩

theorem StaleAt.of_standing? (h : job.StaleAt disk keep q)
    (hdir : again.workingDir = disk.workingDir)
    (hfolders : ∀ q, disk.root.standing? q = some .folder → again.root.standing? q = some .folder)
    (hstands : ∀ q s, again.root.standing? q = some s → disk.root.standing? q = some s)
    (hq : again.root.standing? q = some s) : job.StaleAt again keep q := by
  obtain ⟨below, hstale, rfl⟩ := h
  obtain ⟨c, hunder⟩ := hstale.file
  have hplace := Disk.destination_of_workingDir hdir job.target
  cases (hstands _ _ hq).symm.trans hunder.standing?
  refine ⟨below, ⟨⟨c, hunder.of_standing? hdir hfolders ?_⟩, hstale.marked, hstale.notKept⟩, ?_⟩
  · rw [hplace]
    exact hq
  · rw [hplace]

theorem InReach.mono (h : job.InReach disk keep) (hdir : disk.workingDir = again.workingDir)
    (hstands : ∀ q s, again.root.standing? q = some s → disk.root.standing? q = some s) :
    job.InReach again keep where
  folders below hunder := h.folders below (hunder.mono hdir hstands)
  files below hstale := h.files below (hstale.mono hdir hstands)

/-- A disk between the one that was swept and what the sweep left is swept to the same. -/
theorem sweep_again (h : written.root.WellFormed) (h' : again.root.WellFormed)
    (hs : job.sweep keep written = ⟨after, none⟩) (hdir : again.workingDir = written.workingDir)
    (hfolders : ∀ q, written.root.standing? q = some .folder →
      again.root.standing? q = some .folder)
    (hbefore : ∀ q s, again.root.standing? q = some s → written.root.standing? q = some s)
    (hafter : ∀ q s, after.root.standing? q = some s → again.root.standing? q = some s) :
    job.sweep keep again = ⟨after, none⟩ := by
  have hkeeps := sweep_keeps h job keep
  have hkeeps' := sweep_keeps h' job keep
  have hreach := (inReach_of_sweep h (congrArg Outcome.failure hs)).mono hdir.symm hbefore
  have hs' := Outcome.eq_of_isNone (o := job.sweep keep again)
    (Option.isNone_iff_eq_none.mpr (sweep_of_inReach h' hreach))
  rw [hs] at hkeeps
  have hsame (q : Place) :
      (job.sweep keep again).disk.root.standing? q = after.root.standing? q := by
    rcases standing?_sweep h hs q with ⟨hstale, hnone⟩ | ⟨hnot, heq⟩
    · rw [hnone]
      rcases standing?_sweep h' hs' q with ⟨-, hnone'⟩ | ⟨hnot', heq'⟩
      · exact hnone'
      · rw [heq', Option.eq_none_iff_forall_ne_some]
        intro s hq
        exact hnot' (hstale.of_standing? hdir hfolders hbefore hq)
    · rcases standing?_sweep h' hs' q with ⟨hstale', -⟩ | ⟨-, heq'⟩
      · exact absurd (hstale'.mono hdir.symm hbefore) hnot
      · rw [heq']
        refine Option.ext fun s => ⟨fun hq => ?_, hafter q s⟩
        rw [heq]
        exact hbefore q s hq
  have hroot := Directory.WellFormed.ext hkeeps'.root.wellFormed hkeeps.root.wellFormed hsame
  have hworking := (hkeeps'.workingDir.trans hdir).trans hkeeps.workingDir.symm
  rw [hs']
  obtain ⟨root, workingDir⟩ := after
  cases hroot
  cases hworking
  rfl

-- ---------------------------------------------------------------------------
-- Running again
-- ---------------------------------------------------------------------------

theorem run_of_same_pass (h : disk.root.WellFormed) (hrun : job.run disk = ⟨after, none⟩)
    (hsame : ∀ gen, job.generate disk = .ok gen → job.generate after = .ok gen) :
    job.run after = ⟨after, none⟩ := by
  obtain ⟨gen, written, hgen, hw, hsweep⟩ := run_ok hrun
  have hwritten := write_keeps h job gen.diagrams
  rw [hw] at hwritten
  have hwell := hwritten.root.wellFormed
  have hswept := sweep_keeps hwell job (gen.diagrams.map job.documentPath)
  rw [hsweep] at hswept
  have hleft (q : Place) (s : Standing) (hq : after.root.standing? q = some s) :
      written.root.standing? q = some s := (standing?_of_sweep hwell hsweep hq).1
  have hfree : ∀ d ∈ gen.diagrams,
      after.root.standing? (disk.destination (job.documentPath d)) ≠ some .folder := by
    intro d hd hfolder
    obtain ⟨c, hfile⟩ := standing?_document h hw hd
    cases hfile.symm.trans (hleft _ _ hfolder)
  obtain ⟨again, hw', hdir, hwell', hstands⟩ := write_again h hw hswept.root.wellFormed
    (hswept.workingDir.trans hwritten.workingDir) hswept.root.folder hfree
  have hrewritten := write_keeps hswept.root.wellFormed job gen.diagrams
  rw [hw'] at hrewritten
  -- What is written again lies between what was written first and what was left of it.
  have hbetween (q : Place) (s : Standing) :
      (again.root.standing? q = some s → written.root.standing? q = some s) ∧
        (after.root.standing? q = some s → again.root.standing? q = some s) := by
    rw [hstands]
    cases htext : job.textAt? disk q gen.diagrams with
    | none => exact ⟨hleft q s, id⟩
    | some c =>
      have hfile := standing?_written h hw htext
      exact ⟨fun hq => hfile.trans hq, fun hq => hfile.symm.trans (hleft q s hq)⟩
  rw [run, hsame gen hgen]
  simp only [hw']
  exact sweep_again hwell hwell' hsweep (hdir.trans hwritten.workingDir.symm)
    (fun q hq => hrewritten.root.folder q (hswept.root.folder q hq)) (fun q s => (hbetween q s).1)
    (fun q s => (hbetween q s).2)

/-- A run that succeeds changes files only where they are named like documents. -/
theorem sameBut_of_run (h : disk.root.WellFormed) (hrun : job.run disk = ⟨after, none⟩)
    (hsuffix : Text.ending job.config.diagram.outputSuffix = job.config.diagram.outputSuffix) :
    SameBut job.config.diagram.outputSuffix disk after := by
  obtain ⟨gen, written, hgen, hw, hsweep⟩ := run_ok hrun
  have hwritten := write_keeps h job gen.diagrams
  rw [hw] at hwritten
  have hwell := hwritten.root.wellFormed
  have hkeeps := run_keeps h job
  rw [hrun] at hkeeps
  refine ⟨hkeeps.mono fun q hq => hsuffix ▸ hq.named, fun q c hq => ?_⟩
  have hfile := Directory.file?_eq_some.mpr (standing?_of_sweep hwell hsweep hq).1
  rw [file?_write h hw] at hfile
  cases htext : job.textAt? disk q gen.diagrams with
  | none =>
    rw [htext, Option.none_or] at hfile
    exact .inr (Directory.file?_eq_some.mp hfile)
  | some text =>
    obtain ⟨d, hd, hplace⟩ := exists_of_textAt? htext
    obtain ⟨root, hroot⟩ := generate_ok hgen hd
    have hname := getLast?_of_replaces hroot (replaces_of_write h hw hd)
    rw [hsuffix, ← hplace] at hname
    exact .inl hname

end Job

/-- A run that succeeded changes nothing when it is made again, where documents and scenes
have their usual names and the first run left what is looked for as it was. -/
theorem run_again (h : disk.root.WellFormed)
    (hjob : Job.ofArguments args settingsDir disk = .ok job)
    (hsuffix : job.config.diagram.outputSuffix = ".g.puml")
    (hextension : job.config.analysis.sceneExtension = "tscn")
    (hnames : Job.NamesNoDocument args disk) (hrun : run args settingsDir disk = ⟨after, none⟩)
    (hsame : job.Undisturbed args settingsDir disk after) :
    run args settingsDir after = ⟨after, none⟩ := by
  have hwhole : Text.ending ".g.puml" = ".g.puml" := by decide +kernel
  rw [run, hjob] at hrun
  have hbut := Job.sameBut_of_run h hrun (by rw [hsuffix, hwhole])
  rw [hsuffix] at hbut
  rw [run, Job.ofArguments_again hbut hsame hnames hjob]
  refine Job.run_of_same_pass h hrun fun gen hgen => ?_
  obtain ⟨project, hproject, hgen⟩ := bind_ok.mp hgen
  have hmanifest := (Job.ofArguments_ok.mp hjob).2.2.2
  exact bind_ok.mpr ⟨project,
    Job.readProject_again hbut h hextension hsame hnames hmanifest hproject, hgen⟩

theorem namesNoDocument_of_none (args : Arguments) (hconfig : args.config = none)
    (hmanifest : args.declarations = none) (disk : Disk) : Job.NamesNoDocument args disk := by
  intro text htext
  simp [hconfig, hmanifest] at htext

def namesOn (args : Arguments) (disk : Disk) : Option (Path × String × String) :=
  (Job.ofArguments args none disk).toOption.map fun job =>
    (job.project, job.config.diagram.outputSuffix, job.config.analysis.sceneExtension)

theorem exists_names (h : namesOn args disk = some (project, suffix, extension)) :
    ∃ job, Job.ofArguments args none disk = .ok job ∧ job.project = project ∧
      job.config.diagram.outputSuffix = suffix ∧
      job.config.analysis.sceneExtension = extension := by
  cases hjob : Job.ofArguments args none disk with
  | error failure => simp [namesOn, hjob, Except.toOption] at h
  | ok job =>
    simp only [namesOn, hjob, Except.toOption, Option.map_some, Option.some.injEq,
      Prod.mk.injEq] at h
    exact ⟨job, rfl, h⟩

theorem run_again_level : ∃ job after, oneLevel.root.WellFormed ∧
    Job.ofArguments {} none oneLevel = .ok job ∧ job.config.diagram.outputSuffix = ".g.puml" ∧
    job.config.analysis.sceneExtension = "tscn" ∧ Job.NamesNoDocument {} oneLevel ∧
    run {} none oneLevel = ⟨after, none⟩ ∧ job.Undisturbed {} none oneLevel after ∧
    (after.root.file? ["p", "A.g.puml"]).isSome ∧ run {} none after = ⟨after, none⟩ := by
  have hwell : oneLevel.root.WellFormed := by decide +kernel
  have husual : namesOn {} oneLevel = some (⟨"/p"⟩, ".g.puml", "tscn") := by decide +kernel
  obtain ⟨job, hjob, hproject, hsuffix, hextension⟩ := exists_names husual
  have hnames := namesNoDocument_of_none {} rfl rfl oneLevel
  have hfacts : (run {} none oneLevel).failure.isNone ∧
      ((run {} none oneLevel).disk.root.file? ["p", "A.g.puml"]).isSome ∧
      (visibleFiles (run {} none oneLevel).disk ⟨"/p"⟩).toOption.isSome ∧
      (configPlaces none).find? (Disk.exists? (run {} none oneLevel).disk) =
        (configPlaces none).find? oneLevel.exists? ∧
      Disk.exists? (run {} none oneLevel).disk (manifestIn ⟨"/p"⟩) = false := by decide +kernel
  obtain ⟨hok, hfile, hwalk, hsettings, hmanifest⟩ := hfacts
  have hrun := Outcome.eq_of_isNone hok
  have hkeeps := job.run_keeps hwell
  rw [show job.run oneLevel = run {} none oneLevel by rw [run, hjob]] at hkeeps
  have hsame : job.Undisturbed {} none oneLevel (run {} none oneLevel).disk := by
    cases hvisible : visibleFiles (run {} none oneLevel).disk ⟨"/p"⟩ with
    | error fault => simp [hvisible, Except.toOption] at hwalk
    | ok found =>
      refine ⟨?_, fun below hfolder hshown => ?_, fun _ => hsettings, fun _ hexists => ?_⟩
      · rw [hproject]
        exact Disk.exists?_of_filesWhere hvisible
      · rw [hproject] at hfolder ⊢
        exact Disk.isUsable_of_filesWhere hkeeps.root.wellFormed hvisible hfolder hshown
      · rw [hproject, hmanifest] at hexists
        cases hexists
  exact ⟨job, _, hwell, hjob, hsuffix, hextension, hnames, hrun, hsame, hfile,
    run_again hwell hjob hsuffix hextension hnames hrun hsame⟩

/-- A run that succeeds, with the usual names of documents and scenes, and fails when it is
made again. -/
structure FailsAgain (args : Arguments) (disk : Disk) : Prop where
  wellFormed : disk.root.WellFormed
  usual : ∃ job, Job.ofArguments args none disk = .ok job ∧
    job.config.diagram.outputSuffix = ".g.puml" ∧ job.config.analysis.sceneExtension = "tscn"
  names : Job.NamesNoDocument args disk
  first : (run args none disk).failure = none
  again : (run args none (run args none disk).disk).failure ≠ none

theorem failsAgain_of {args : Arguments} {disk : Disk} (project : Path)
    (hwell : disk.root.WellFormed) (hgiven : args.config = none ∧ args.declarations = none)
    (hnames : namesOn args disk = some (project, ".g.puml", "tscn"))
    (hruns : (run args none disk).failure.isNone ∧
      (run args none (run args none disk).disk).failure.isSome) : FailsAgain args disk := by
  obtain ⟨job, hjob, -, husual⟩ := exists_names hnames
  refine ⟨hwell, ⟨job, hjob, husual⟩, namesNoDocument_of_none args hgiven.1 hgiven.2 disk,
    Option.isNone_iff_eq_none.mp hruns.1, fun hnone => ?_⟩
  rw [hnone] at hruns
  cases hruns.2

def fileProject : Disk where
  root := .file "A.g.puml" .empty .empty
  workingDir := ⟨"/"⟩

def likeSettings : Disk where
  root := .folder "p" (.file "scenery.toml"
    "types=[\x7bname=\"U\",kind=\"class\",file=\"scenery/config.toml/U.cs\"\x7d]".toUTF8
    .empty) .empty
  workingDir := ⟨"/p"⟩

def likeManifest : Disk where
  root := .folder "p" (.file "A.tscn" "[node name=\"scenery.toml/A\" type=\"N\"]".toUTF8
    (.folder "scenery" (.file "config.toml" "diagram.flatten_output=true".toUTF8 .empty)
      .empty)) .empty
  workingDir := ⟨"/p"⟩

/-- The first run takes its own project away, or makes a folder where the second looks for
settings or for a manifest. -/
theorem not_run_again : FailsAgain { project := "A.g.puml" } fileProject ∧
    FailsAgain {} likeSettings ∧ FailsAgain {} likeManifest := by
  refine ⟨?_, ?_, ?_⟩
  · exact failsAgain_of ⟨"/A.g.puml"⟩ (by decide +kernel) ⟨rfl, rfl⟩
      (by decide +kernel) (by decide +kernel)
  · exact failsAgain_of ⟨"/p"⟩ (by decide +kernel) ⟨rfl, rfl⟩
      (by decide +kernel) (by decide +kernel)
  · exact failsAgain_of ⟨"/p"⟩ (by decide +kernel) ⟨rfl, rfl⟩
      (by decide +kernel) (by decide +kernel)

end SceneDiagram.CommandLine
