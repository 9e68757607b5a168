import SceneDiagram.Proofs.CommandLine.Changes

/-!
# A run leaves its documents

`run_leaves_documents`: after a run that succeeds, every document of the pass
stands on the disk, where the paths of the documents differ and are made of names
alone. A path with a `..` in it is written as it is spelled, while the sweep
spells what it finds without: the two do not match, and the sweep takes the
document away again (`not_run_leaves_documents`).
-/

namespace SceneDiagram.CommandLine

variable {job : Job} {disk after : Disk} {gen : Generation} {d : Diagram} {diagrams : List Diagram}

theorem readText_eq (h : disk.entry? p = some (.file text.toUTF8)) :
    disk.readText p = .ok text := by
  have htext : String.fromUTF8? text.toUTF8 = some text := by
    rw [String.fromUTF8?, String.toUTF8_eq_toByteArray, dif_pos text.isValidUTF8]
    rfl
  rw [Disk.readText, h]
  simp only [htext]

namespace Job

-- ---------------------------------------------------------------------------
-- Writing
-- ---------------------------------------------------------------------------

/-- The documents of a pass lead to places of their own. -/
def Apart (job : Job) (disk : Disk) (diagrams : List Diagram) : Prop :=
  diagrams.Pairwise fun a b =>
    disk.destination (job.documentPath a) ≠ disk.destination (job.documentPath b)

theorem write_ok (h : disk.root.WellFormed)
    (hw : job.write disk diagrams = ⟨after, none⟩) (hapart : job.Apart disk diagrams) :
    ∀ d ∈ diagrams, after.entry? (job.documentPath d) = some (.file d.text.toUTF8) := by
  induction diagrams generalizing disk with
  | nil => simp
  | cons d diagrams ih =>
    obtain ⟨hfirst, hrest⟩ := List.pairwise_cons.mp hapart
    have hkeeps := disk.write_keeps h (job.documentPath d) d.text.toUTF8
    rw [write_cons] at hw
    split at hw
    · cases hw
    · next disk₁ hone =>
      rw [hone] at hkeeps
      have hwell := hkeeps.root.wellFormed
      have hapart₁ : job.Apart disk₁ diagrams := by
        simpa only [Apart, hkeeps.destination] using hrest
      refine List.forall_mem_cons.mpr ⟨?_, ih hwell hw hapart₁⟩
      -- What is written later goes to other places, so it keeps this document.
      have hlater := write_keeps hwell job diagrams
      rw [hw] at hlater
      refine hlater.stays (Disk.write_ok h hone) ?_
      rintro ⟨d', hd', hq⟩
      have hsame := hq.place
      rw [hkeeps.destination, hkeeps.destination] at hsame
      exact hfirst d' hd' hsame

-- ---------------------------------------------------------------------------
-- Plain paths
-- ---------------------------------------------------------------------------

/-- The sweep finds a document under the very path that was written. -/
theorem not_staleAt (h : disk.root.WellFormed) (hd : d ∈ diagrams)
    (hplain : (Path.mk d.path).IsPlain) :
    ¬ job.StaleAt disk (diagrams.map job.documentPath) (disk.destination (job.documentPath d)) := by
  obtain ⟨names, hnames⟩ := hplain
  rintro ⟨below, hstale, hplace⟩
  have hbelow : names = below := by
    rwa [documentPath, Disk.destination_resolve_names disk job.target hnames,
      List.append_cancel_left_eq] at hplace
  subst hbelow
  obtain ⟨c, hunder⟩ := hstale.file
  refine hstale.notKept (List.any_eq_true.mpr ⟨_, List.mem_map_of_mem hd, ?_⟩)
  rw [Path.same, beq_iff_eq, documentPath, Path.components_resolve_plain ⟨names, hnames⟩, hnames]
  exact Path.components_foldl_child (hunder.isName h) job.target

theorem apart_of_plain (hplain : ∀ d ∈ diagrams, (Path.mk d.path).IsPlain)
    (hdiffer : diagrams.Pairwise fun a b => ¬ (Path.mk a.path).same ⟨b.path⟩) :
    job.Apart disk diagrams := by
  refine hdiffer.imp_of_mem fun ha hb hab => ?_
  exact Disk.destination_ne (hplain _ ha) (hplain _ hb) hab disk job.target

-- ---------------------------------------------------------------------------
-- Running
-- ---------------------------------------------------------------------------

theorem run_ok (h : job.run disk = ⟨after, none⟩) : ∃ gen written,
    job.generate disk = .ok gen ∧ job.write disk gen.diagrams = ⟨written, none⟩ ∧
      job.sweep (gen.diagrams.map job.documentPath) written = ⟨after, none⟩ := by
  unfold run at h
  split at h
  · simp at h
  · next gen hgen =>
    split at h
    · cases h
    · next written hw => exact ⟨gen, written, hgen, hw, h⟩

theorem run_leaves (h : disk.root.WellFormed) (hgen : job.generate disk = .ok gen)
    (hrun : job.run disk = ⟨after, none⟩) (hapart : job.Apart disk gen.diagrams)
    (hd : d ∈ gen.diagrams) (hplain : (Path.mk d.path).IsPlain) :
    after.readText (job.documentPath d) = .ok d.text := by
  obtain ⟨gen', written, hgen', hw, hsweep⟩ := run_ok hrun
  cases hgen.symm.trans hgen'
  have hwritten := write_keeps h job gen.diagrams
  rw [hw] at hwritten
  have hwell := hwritten.root.wellFormed
  have hswept := sweep_keeps hwell job (gen.diagrams.map job.documentPath)
  rw [hsweep] at hswept
  exact readText_eq (hswept.stays (write_ok h hw hapart d hd) (not_staleAt hwell hd hplain))

end Job

/-- After a run that succeeds every document of the pass stands where it was
written, with its text, if the paths of the documents are different and plain. -/
theorem run_leaves_documents (h : disk.root.WellFormed)
    (hrun : run args settingsDir disk = ⟨after, none⟩) :
    ∃ job gen, Job.ofArguments args settingsDir disk = .ok job ∧ job.generate disk = .ok gen ∧
      (gen.diagrams.Pairwise (fun a b => ¬ (Path.mk a.path).same ⟨b.path⟩) →
        (∀ d ∈ gen.diagrams, (Path.mk d.path).IsPlain) →
          ∀ d ∈ gen.diagrams, after.readText (job.documentPath d) = .ok d.text) := by
  unfold run at hrun
  split at hrun
  · simp at hrun
  · next job hjob =>
    obtain ⟨gen, -, hgen, -, -⟩ := Job.run_ok hrun
    refine ⟨job, gen, hjob, hgen, fun hdiffer hplain d hd => ?_⟩
    exact job.run_leaves h hgen hrun (Job.apart_of_plain hplain hdiffer) hd (hplain d hd)

theorem Outcome.eq_of_isNone {o : Outcome} (h : o.failure.isNone) : o = ⟨o.disk, none⟩ := by
  rw [← Option.isNone_iff_eq_none.mp h]

def pathsOn (disk : Disk) : Option (List String) :=
  (Job.ofArguments {} none disk).toOption.bind fun job =>
    (job.generate disk).toOption.map (·.diagrams.map (·.path))

theorem pathsOn_eq (hjob : Job.ofArguments {} none disk = .ok job)
    (hgen : job.generate disk = .ok gen) : pathsOn disk = some (gen.diagrams.map (·.path)) := by
  simp [pathsOn, hjob, hgen, Except.toOption]

def oneLevel : Disk where
  root := .folder "p" (.file "A.tscn" "[node name=\"A\" type=\"N\"]".toUTF8 .empty) .empty
  workingDir := ⟨"/p"⟩

def twoLevels : Disk where
  root := .folder "p" (.file "A.tscn" "[node name=\"A\" type=\"Node\"]\n".toUTF8
    (.file "B.tscn" "[node name=\"B\" type=\"Node\"]\n".toUTF8 .empty)) .empty
  workingDir := ⟨"/p"⟩

theorem run_leaves_documents_two : ∃ (after : Disk) (job : Job) (gen : Generation),
    twoLevels.root.WellFormed ∧ run {} none twoLevels = ⟨after, none⟩ ∧
    gen.diagrams.map (·.path) = ["A.g.puml", "B.g.puml"] ∧
    ∀ d ∈ gen.diagrams, after.readText (job.documentPath d) = .ok d.text := by
  have hwell : twoLevels.root.WellFormed := by decide +kernel
  have hrun := Outcome.eq_of_isNone (o := run {} none twoLevels) (by decide +kernel)
  obtain ⟨job, gen, hjob, hgen, hleaves⟩ := run_leaves_documents hwell hrun
  have hpaths : pathsOn twoLevels = some ["A.g.puml", "B.g.puml"] := by decide +kernel
  rw [pathsOn_eq hjob hgen, Option.some.injEq] at hpaths
  have hdiffer : (gen.diagrams.map (·.path)).Pairwise fun a b => ¬ (Path.mk a).same ⟨b⟩ := by
    rw [hpaths]
    decide +kernel
  have hplain : ∀ s ∈ gen.diagrams.map (·.path), (Path.mk s).IsPlain := by
    rw [hpaths]
    have hnames : ∀ s ∈ ["A.g.puml", "B.g.puml"], Path.IsName s := by decide
    exact fun s hs => (hnames s hs).isPlain
  exact ⟨_, job, gen, hwell, hrun, hpaths, hleaves (List.pairwise_map.mp hdiffer)
    fun d hd => hplain _ (List.mem_map_of_mem hd)⟩

/-- A project that names a source file by a way down and up again. -/
def steppingUp : Disk where
  root := .folder "p" (.file "scenery.toml"
    "[[types]]\nname = \"Util\"\nkind = \"class\"\nfile = \"Game/../Shared/Util.cs\"\n".toUTF8
    .empty) .empty
  workingDir := ⟨"/p"⟩

/-- The run succeeds and takes its only document away. -/
theorem not_run_leaves_documents : ¬ ∀ (args : Arguments) (settingsDir : Option Path)
    (disk after : Disk) (job : Job) (gen : Generation), disk.root.WellFormed →
    run args settingsDir disk = ⟨after, none⟩ → Job.ofArguments args settingsDir disk = .ok job →
    job.generate disk = .ok gen →
    gen.diagrams.Pairwise (fun a b => ¬ (Path.mk a.path).same ⟨b.path⟩) →
    ∀ d ∈ gen.diagrams, after.readText (job.documentPath d) = .ok d.text := by
  intro h
  have hpaths : pathsOn steppingUp = some ["Game/../Shared/Util.g.puml"] := by decide +kernel
  have hrun := Outcome.eq_of_isNone (o := run {} none steppingUp) (by decide +kernel)
  have hmissing : (Job.ofArguments {} none steppingUp).toOption.map (fun job =>
      ((run {} none steppingUp).disk.readText
        (job.target.resolve ⟨"Game/../Shared/Util.g.puml"⟩)).toOption) = some none := by
    decide +kernel
  cases hjob : Job.ofArguments {} none steppingUp with
  | error failure => simp [hjob, Except.toOption] at hmissing
  | ok job =>
    cases hgen : job.generate steppingUp with
    | error failure => simp [pathsOn, hjob, hgen, Except.toOption] at hpaths
    | ok gen =>
      rw [pathsOn_eq hjob hgen, Option.some.injEq] at hpaths
      obtain ⟨d, hd, hpath⟩ := List.map_eq_singleton_iff.mp hpaths
      have hleft := h {} none steppingUp _ job gen (by decide +kernel) hrun hjob hgen
        (by simp [hd]) d (by simp [hd])
      rw [Job.documentPath, hpath] at hleft
      simp [hjob, hleft, Except.toOption] at hmissing

end SceneDiagram.CommandLine
