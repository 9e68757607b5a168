import SceneDiagram.Proofs.CommandLine.Sweep

/-!
# Documents of earlier runs

`run_removes_earlier`: what a run wrote below its output directory and not into a hidden
place is gone after the next run there, unless that writes the same place. Documents are
written wherever their paths lead, though, and those that lead out of the output directory
are never looked for again (`not_run_removes_earlier`).
-/

namespace SceneDiagram.CommandLine

open Text
open SceneDiagram.Path (IsName)

variable {job : Job} {disk after : Disk} {d : Diagram} {diagrams : List Diagram} {below : Place}

theorem hasSuffix_of_fileName? {p : Path} (stem : String)
    (h : p.fileName? = some (stem ++ suffix)) : hasSuffix suffix p := by
  simp [hasSuffix, h, stripTail?, after?_append]

namespace Job

/-- A document lies where the sweep looks: below the output directory and in no hidden
place. -/
structure LiesBelow (job : Job) (disk : Disk) (d : Diagram) (below : Place) : Prop where
  place : disk.destination (job.documentPath d) = disk.destination job.target ++ below
  ne_nil : below ≠ []
  shown : ∀ n ∈ below, !isHidden n

theorem LiesBelow.isMarked {job' : Job} {gen : Generation} (h : job.LiesBelow disk d below)
    (hgen : job.generate disk = .ok gen) (hd : d ∈ gen.diagrams)
    (hreplaces : disk.Replaces (job.documentPath d) (disk.destination (job.documentPath d)))
    (hsuffix : job'.config.diagram.outputSuffix = job.config.diagram.outputSuffix)
    (hslash : '/' ∉ job.config.diagram.outputSuffix.toList) (hnames : ∀ n ∈ below, IsName n) :
    job'.IsMarked below := by
  obtain ⟨root, hroot⟩ := generate_ok hgen hd
  obtain ⟨stem, hlast⟩ := getLast?_of_replaces hroot hreplaces
  obtain ⟨lead, n, rfl⟩ : ∃ lead n, below = lead ++ [n] :=
    ⟨_, _, (List.dropLast_concat_getLast h.ne_nil).symm⟩
  have hwhole : ending job.config.diagram.outputSuffix = job.config.diagram.outputSuffix := by
    simp [ending, split_of_not_mem hslash]
  rw [h.place, ← List.append_assoc, List.getLast?_concat, Option.some.injEq, hwhole, ← hsuffix]
    at hlast
  refine ⟨h.shown, hasSuffix_of_fileName? stem ?_⟩
  rw [Path.fileName?_foldl_child hnames, hlast]

end Job

/-- A document of a run that succeeded is gone after the next run with that output
directory and suffix, if that succeeds or its pass fails, and writes no document there. -/
theorem run_removes_earlier {disk₁ disk₂ after₁ : Disk} {job₁ job₂ : Job}
    (h₁ : disk₁.root.WellFormed) (h₂ : disk₂.root.WellFormed)
    (hjob₁ : Job.ofArguments args₁ settings₁ disk₁ = .ok job₁)
    (hjob₂ : Job.ofArguments args₂ settings₂ disk₂ = .ok job₂)
    (htarget : disk₂.place? job₂.target = some (disk₁.destination job₁.target))
    (hsuffix : job₂.config.diagram.outputSuffix = job₁.config.diagram.outputSuffix)
    (hslash : '/' ∉ job₁.config.diagram.outputSuffix.toList)
    (hfirst : run args₁ settings₁ disk₁ = ⟨after₁, none⟩)
    (hsecond : (run args₂ settings₂ disk₂).failure = none ∨
      (∃ failure, job₂.generate disk₂ = .error failure) ∧ job₂.InReach disk₂ []) :
    ∃ gen₁, job₁.generate disk₁ = .ok gen₁ ∧ ∀ d ∈ gen₁.diagrams, ∀ below,
      job₁.LiesBelow disk₁ d below →
      (∀ gen₂, job₂.generate disk₂ = .ok gen₂ → ∀ d₂ ∈ gen₂.diagrams,
        disk₂.destination (job₂.documentPath d₂) ≠ disk₁.destination (job₁.documentPath d)) →
      (run args₂ settings₂ disk₂).disk.root.file? (disk₁.destination (job₁.documentPath d)) =
        none := by
  have hrun₁ : run args₁ settings₁ disk₁ = job₁.run disk₁ := by rw [run, hjob₁]
  have hrun₂ : run args₂ settings₂ disk₂ = job₂.run disk₂ := by rw [run, hjob₂]
  rw [hrun₁] at hfirst
  rw [hrun₂] at hsecond ⊢
  obtain ⟨gen₁, written, hgen₁, hw, -⟩ := Job.run_ok hfirst
  refine ⟨gen₁, hgen₁, fun d hd below hbelow hother => ?_⟩
  rw [Option.eq_none_iff_forall_ne_some]
  intro c hfile
  rw [Directory.file?_eq_some] at hfile
  have hkeeps := job₂.run_keeps h₂
  have hnames : ∀ n ∈ below, IsName n := fun n hn =>
    hkeeps.root.wellFormed.isName hfile n (hbelow.place ▸ List.mem_append_right _ hn)
  have hmarked : job₂.IsMarked below := hbelow.isMarked hgen₁ hd
    (Job.replaces_of_write h₁ hw hd) hsuffix hslash hnames
  have hunder : (job₂.run disk₂).disk.Under job₂.target below (.file c) := by
    rw [hbelow.place] at hfile
    obtain ⟨n, rest, rfl⟩ := List.exists_cons_of_ne_nil hbelow.ne_nil
    exact Disk.under_of_standing? (hkeeps.place? htarget) hfile
  rcases hsecond with hok | ⟨⟨failure, hgen₂⟩, hreach⟩
  · obtain ⟨gen₂, hgen₂, hsettles⟩ := Job.run_of_written h₂ (Outcome.eq_of_isNone
      (o := job₂.run disk₂) (Option.isNone_iff_eq_none.mpr hok))
    obtain ⟨d₂, hd₂, hsame⟩ := hsettles.marked below c hmarked hunder
    refine hother gen₂ hgen₂ d₂ hd₂ ?_
    rw [Disk.destination_congr (beq_iff_eq.mp hsame), Disk.destination_foldl_child _ _ hnames,
      hbelow.place, ← Disk.place?_eq htarget]
  · exact (Job.run_of_failed h₂ hgen₂).cleared hreach below c hmarked hunder

def passOn (disk : Disk) : Option (Path × String × List Place) :=
  (Job.ofArguments {} none disk).toOption.bind fun job =>
    (job.generate disk).toOption.map fun gen =>
      (job.target, job.config.diagram.outputSuffix,
        gen.diagrams.map fun d => disk.destination (job.documentPath d))

theorem exists_pass (h : passOn disk = some (target, suffix, places)) :
    ∃ job gen, Job.ofArguments {} none disk = .ok job ∧ job.generate disk = .ok gen ∧
      job.target = target ∧ job.config.diagram.outputSuffix = suffix ∧
      gen.diagrams.map (fun d => disk.destination (job.documentPath d)) = places := by
  cases hjob : Job.ofArguments {} none disk with
  | error failure => simp [passOn, hjob, Except.toOption] at h
  | ok job =>
    cases hgen : job.generate disk with
    | error failure => simp [passOn, hjob, hgen, Except.toOption] at h
    | ok gen =>
      simp only [passOn, hjob, hgen, Except.toOption, Option.bind_some, Option.map_some,
        Option.some.injEq, Prod.mk.injEq] at h
      exact ⟨job, gen, rfl, hgen, h⟩

def noLevel : Disk where
  root := .folder "p" (.file "A.g.puml" .empty .empty) .empty
  workingDir := ⟨"/p"⟩

theorem run_removes_earlier_level : ∃ (job₁ job₂ : Job) (gen₁ : Generation) (d : Diagram)
    (after₁ : Disk), oneLevel.root.WellFormed ∧ noLevel.root.WellFormed ∧
    Job.ofArguments {} none oneLevel = .ok job₁ ∧ Job.ofArguments {} none noLevel = .ok job₂ ∧
    noLevel.place? job₂.target = some (oneLevel.destination job₁.target) ∧
    job₂.config.diagram.outputSuffix = job₁.config.diagram.outputSuffix ∧
    '/' ∉ job₁.config.diagram.outputSuffix.toList ∧ run {} none oneLevel = ⟨after₁, none⟩ ∧
    (run {} none noLevel).failure = none ∧ d ∈ gen₁.diagrams ∧
    job₁.LiesBelow oneLevel d ["A.g.puml"] ∧
    (∀ gen₂, job₂.generate noLevel = .ok gen₂ → ∀ d₂ ∈ gen₂.diagrams,
      noLevel.destination (job₂.documentPath d₂) ≠ oneLevel.destination (job₁.documentPath d)) ∧
    (noLevel.root.file? (oneLevel.destination (job₁.documentPath d))).isSome ∧
    (run {} none noLevel).disk.root.file? (oneLevel.destination (job₁.documentPath d)) = none := by
  have hwell₁ : oneLevel.root.WellFormed := by decide +kernel
  have hwell₂ : noLevel.root.WellFormed := by decide +kernel
  have hpass₁ : passOn oneLevel = some (⟨"/p"⟩, ".g.puml", [["p", "A.g.puml"]]) := by
    decide +kernel
  have hpass₂ : passOn noLevel = some (⟨"/p"⟩, ".g.puml", []) := by decide +kernel
  obtain ⟨job₁, gen, hjob₁, hgen, htarget₁, hsuffix₁, hplaces₁⟩ := exists_pass hpass₁
  obtain ⟨job₂, gen₂, hjob₂, hgen₂, htarget₂, hsuffix₂, hplaces₂⟩ := exists_pass hpass₂
  have htarget : noLevel.place? job₂.target = some (oneLevel.destination job₁.target) := by
    rw [htarget₁, htarget₂]
    decide +kernel
  have hsuffix := hsuffix₂.trans hsuffix₁.symm
  have hslash : '/' ∉ job₁.config.diagram.outputSuffix.toList := by
    rw [hsuffix₁]
    decide +kernel
  have hrun := Outcome.eq_of_isNone (o := run {} none oneLevel) (by decide +kernel)
  have hagain : (run {} none noLevel).failure = none :=
    Option.isNone_iff_eq_none.mp (by decide +kernel)
  obtain ⟨gen₁, hgen₁, hgone⟩ :=
    run_removes_earlier hwell₁ hwell₂ hjob₁ hjob₂ htarget hsuffix hslash hrun (.inl hagain)
  cases hgen.symm.trans hgen₁
  obtain ⟨d, hdiagrams, hplace⟩ := List.map_eq_singleton_iff.mp hplaces₁
  have hd : d ∈ gen.diagrams := by simp [hdiagrams]
  have hbelow : job₁.LiesBelow oneLevel d ["A.g.puml"] := by
    refine ⟨?_, by simp, by decide +kernel⟩
    rw [hplace, htarget₁]
    decide +kernel
  have hother : ∀ gen', job₂.generate noLevel = .ok gen' → ∀ d₂ ∈ gen'.diagrams,
      noLevel.destination (job₂.documentPath d₂) ≠ oneLevel.destination (job₁.documentPath d) := by
    intro gen' hgen' d₂ hd₂
    cases hgen₂.symm.trans hgen'
    simp [List.map_eq_nil_iff.mp hplaces₂] at hd₂
  exact ⟨job₁, job₂, gen, d, _, hwell₁, hwell₂, hjob₁, hjob₂, htarget, hsuffix, hslash, hrun,
    hagain, hd, hbelow, hother, by rw [hplace]; decide +kernel, hgone d hd _ hbelow hother⟩

-- ---------------------------------------------------------------------------
-- Documents elsewhere
-- ---------------------------------------------------------------------------

def sharing : Disk where
  root := .folder "p" (.file "scenery.toml"
    "types=[\x7bname=\"U\",kind=\"class\",file=\"../U.cs\"\x7d]".toUTF8 .empty) .empty
  workingDir := ⟨"/p"⟩

def notSharing : Disk :=
  { (run {} none sharing).disk with
    root := Directory.put (.file .empty) (run {} none sharing).disk.root ["p", "scenery.toml"] }

/-- A document beside the output directory is left there. -/
theorem not_run_removes_earlier : ¬ ∀ (args : Arguments) (settingsDir : Option Path)
    (disk₁ disk₂ : Disk) (job₁ job₂ : Job) (gen₁ gen₂ : Generation) (place : Place)
    (content : ByteArray), disk₁.root.WellFormed →
    Job.ofArguments args settingsDir disk₁ = .ok job₁ →
    (run args settingsDir disk₁).failure = none →
    disk₂ = { (run args settingsDir disk₁).disk with
      root := Directory.put (.file content) (run args settingsDir disk₁).disk.root place } →
    Job.ofArguments args settingsDir disk₂ = .ok job₂ → job₂.target = job₁.target →
    job₂.config.diagram.outputSuffix = job₁.config.diagram.outputSuffix →
    (run args settingsDir disk₂).failure = none →
    job₁.generate disk₁ = .ok gen₁ → job₂.generate disk₂ = .ok gen₂ →
    ∀ d ∈ gen₁.diagrams, (∀ d₂ ∈ gen₂.diagrams, disk₂.destination (job₂.documentPath d₂) ≠
      disk₁.destination (job₁.documentPath d)) →
    (run args settingsDir disk₂).disk.root.file? (disk₁.destination (job₁.documentPath d)) =
      none := by
  intro h
  have hpass₁ : passOn sharing = some (⟨"/p"⟩, ".g.puml", [["U.g.puml"]]) := by decide +kernel
  have hpass₂ : passOn notSharing = some (⟨"/p"⟩, ".g.puml", []) := by decide +kernel
  obtain ⟨job₁, gen₁, hjob₁, hgen₁, htarget₁, hsuffix₁, hplaces₁⟩ := exists_pass hpass₁
  obtain ⟨job₂, gen₂, hjob₂, hgen₂, htarget₂, hsuffix₂, hplaces₂⟩ := exists_pass hpass₂
  obtain ⟨d, hdiagrams, hplace⟩ := List.map_eq_singleton_iff.mp hplaces₁
  have hagain : ((run {} none notSharing).failure.isNone &&
      ((run {} none notSharing).disk.root.file? ["U.g.puml"]).isSome) = true := by decide +kernel
  obtain ⟨hok, hleft⟩ := Bool.and_eq_true_iff.mp hagain
  have hgone := h {} none sharing notSharing job₁ job₂ gen₁ gen₂ ["p", "scenery.toml"] .empty
    (by decide +kernel) hjob₁ (Option.isNone_iff_eq_none.mp (by decide +kernel)) rfl hjob₂
    (htarget₂.trans htarget₁.symm) (hsuffix₂.trans hsuffix₁.symm)
    (Option.isNone_iff_eq_none.mp hok) hgen₁ hgen₂ d (by simp [hdiagrams])
    (by simp [List.map_eq_nil_iff.mp hplaces₂])
  rw [hplace] at hgone
  rw [hgone] at hleft
  cases hleft

end SceneDiagram.CommandLine
