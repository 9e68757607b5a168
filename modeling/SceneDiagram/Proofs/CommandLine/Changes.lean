import SceneDiagram.Proofs.CommandLine.Stale
import SceneDiagram.Proofs.Generation

/-!
# What a run changes

`run_keeps_files`: a run, whether or not it succeeds, keeps every file of the
disk but for two kinds: those that documents of the pass are written to, and
those that the sweep takes for earlier documents. Both have names that end with
the suffix of documents. Nothing else guards the scenes, the manifest, the
configuration or the declared sources (`not_run_keeps_scenes`).
-/

namespace SceneDiagram.CommandLine

open Text

variable {job : Job} {disk : Disk} {q : Place}

theorem getLast?_of_hasSuffix (disk : Disk) (h : hasSuffix suffix p) :
    ∃ stem, (disk.destination p).getLast? = some (stem ++ suffix) := by
  cases hname : p.fileName? with
  | none => simp [hasSuffix, hname] at h
  | some name =>
    obtain ⟨stem, hstem⟩ : ∃ stem, stripTail? suffix name = some stem := by
      simpa [hasSuffix, hname, Option.isSome_iff_exists] using h
    exact ⟨stem, eq_append_of_stripTail? hstem ▸ Disk.getLast?_destination hname⟩

namespace Job

-- ---------------------------------------------------------------------------
-- Writing
-- ---------------------------------------------------------------------------

section

-- Writing one file stays closed where a list of documents is taken apart.
attribute [local irreducible] Disk.write

theorem write_nil (job : Job) (disk : Disk) : job.write disk [] = ⟨disk, none⟩ := rfl

theorem write_cons (job : Job) (disk : Disk) (d : Diagram) (diagrams : List Diagram) :
    job.write disk (d :: diagrams) =
      match disk.write (job.documentPath d) d.text.toUTF8 with
      | (disk, some fault) => ⟨disk, some (.io fault)⟩
      | (disk, none) => job.write disk diagrams := rfl

end

theorem write_keeps (h : disk.root.WellFormed) (job : Job) (diagrams : List Diagram) :
    disk.Keeps (fun q => ∃ d ∈ diagrams, disk.Replaces (job.documentPath d) q)
      (job.write disk diagrams).disk := by
  induction diagrams generalizing disk with
  | nil =>
    rw [write_nil]
    exact .refl h _
  | cons d diagrams ih =>
    have hone := disk.write_keeps h (job.documentPath d) d.text.toUTF8
    have hfirst := hone.mono fun q hq => (⟨d, List.mem_cons_self, hq⟩ :
      ∃ d' ∈ d :: diagrams, disk.Replaces (job.documentPath d') q)
    rw [write_cons]
    split
    · next hw =>
      rw [hw] at hfirst
      exact hfirst
    · next disk₁ hw =>
      rw [hw] at hone hfirst
      refine hfirst.trans ((ih hone.root.wellFormed).mono ?_)
      rintro q ⟨d', hd', hq⟩
      exact ⟨d', List.mem_cons_of_mem _ hd', hq.place.trans (hone.destination _), hq.asksNoFolder,
        hq.hasName⟩

theorem generate_ok (h : job.generate disk = .ok gen) (hd : d ∈ gen.diagrams) :
    ∃ root, d.path = Diagram.outputPath job.config.diagram root := by
  obtain ⟨project, -, hrun⟩ := bind_ok.mp h
  obtain ⟨r, -, -, rfl⟩ := Generation.run_ok hrun
  obtain ⟨root, -, rfl⟩ := List.mem_map.mp hd
  exact ⟨root, rfl⟩

theorem getLast?_of_replaces {d : Diagram} {root : Hierarchy.Node}
    (hd : d.path = Diagram.outputPath job.config.diagram root)
    (h : disk.Replaces (job.documentPath d) q) :
    ∃ stem, q.getLast? = some (stem ++ ending job.config.diagram.outputSuffix) := by
  obtain ⟨name, hname⟩ := Option.isSome_iff_exists.mp h.hasName
  have hname' := Path.ending_eq_of_fileName? h.asksNoFolder hname
  obtain ⟨dir, hdir⟩ := Path.exists_text_resolve job.target ⟨d.path⟩
  rw [documentPath, hdir, hd, Diagram.outputPath, ← String.append_assoc] at hname'
  obtain ⟨stem, hstem⟩ := exists_ending_append _ job.config.diagram.outputSuffix
  exact ⟨stem, by rw [h.place, Disk.getLast?_destination hname, ← hname', hstem]⟩

/-- What a run may replace or take away: the file that a document of the pass is
written to, and a file that is shown below the output directory. The first ends
like the suffix of documents behind its last slash, the second like the suffix. -/
inductive MayReplace (job : Job) (disk : Disk) (q : Place) : Prop
  | document (hgen : job.generate disk = .ok gen) (hd : d ∈ gen.diagrams)
      (hplace : q = disk.destination (job.documentPath d))
      (hname : q.getLast? = some (stem ++ ending job.config.diagram.outputSuffix))
  | swept {below : Place} (hplace : q = disk.destination job.target ++ below)
      (hshown : ∀ n ∈ below, !isHidden n)
      (hname : q.getLast? = some (stem ++ job.config.diagram.outputSuffix))

theorem MayReplace.named (h : job.MayReplace disk q) :
    ∃ stem, q.getLast? = some (stem ++ ending job.config.diagram.outputSuffix) := by
  cases h with
  | @document gen d stem hgen hd hplace hname => exact ⟨stem, hname⟩
  | @swept stem below hplace hshown hname =>
    obtain ⟨lead, hlead⟩ := exists_ending job.config.diagram.outputSuffix
    exact ⟨stem ++ lead, by rw [hname, String.append_assoc, ← hlead]⟩

theorem StaleAt.mayReplace (hwell : disk₁.root.WellFormed) (h : job.StaleAt disk₁ keep q)
    (hplace : disk₁.destination job.target = disk.destination job.target) :
    job.MayReplace disk q := by
  obtain ⟨below, hstale, rfl⟩ := h
  obtain ⟨stem, hname⟩ := getLast?_of_hasSuffix disk₁ hstale.marked.named
  rw [hstale.destination hwell] at hname
  exact .swept (by rw [hplace]) hstale.marked.shown hname

theorem run_keeps (h : disk.root.WellFormed) (job : Job) :
    disk.Keeps (job.MayReplace disk) (job.run disk).disk := by
  unfold run
  split
  · exact (sweep_keeps h job []).mono fun q hq => hq.mayReplace h rfl
  · next gen hgen =>
    have hwritten : disk.Keeps (job.MayReplace disk) (job.write disk gen.diagrams).disk := by
      refine (write_keeps h job gen.diagrams).mono ?_
      rintro q ⟨d, hd, hq⟩
      obtain ⟨root, hroot⟩ := generate_ok hgen hd
      obtain ⟨stem, hname⟩ := getLast?_of_replaces hroot hq
      exact .document hgen hd hq.place hname
    split
    · next hw =>
      rw [hw] at hwritten
      exact hwritten
    · next disk₁ hw =>
      rw [hw] at hwritten
      have hwell := hwritten.root.wellFormed
      exact hwritten.trans ((sweep_keeps hwell job _).mono fun q hq =>
        hq.mayReplace hwell (hwritten.destination job.target))

end Job

end SceneDiagram.CommandLine
