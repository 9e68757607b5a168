import SceneDiagram.CommandLine.Run
import SceneDiagram.Proofs.Basic
import SceneDiagram.Proofs.Disk.Below

/-!
# Reading beside documents

A disk that differs from another only in files named like documents, and in folders that
have come, reads alike: the settings and the project that are read from the first disk are
read from the second too (`ofArguments_again`, `readProject_again`), if what is looked
for, and may be missing, leads to as much as before (`Undisturbed`).
-/

namespace SceneDiagram.CommandLine

open Text
open SceneDiagram.Path (IsName)

def EndsWith (suffix : String) (q : Place) : Prop := ∃ stem, q.getLast? = some (stem ++ suffix)

/-- Between two disks files have changed only where their names end with a suffix, and
folders have only come. -/
structure SameBut (suffix : String) (disk after : Disk) : Prop where
  keeps : disk.Keeps (EndsWith suffix) after
  nothingNew : ∀ q c, after.root.standing? q = some (.file c) →
    EndsWith suffix q ∨ disk.root.standing? q = some (.file c)

variable {disk after : Disk} {suffix name text : String} {p dir : Path} {below : Place}

-- ---------------------------------------------------------------------------
-- Names of documents
-- ---------------------------------------------------------------------------

theorem not_endsWith_of_fileName? (h : p.fileName? = some name)
    (hname : ∀ stem, name ≠ stem ++ suffix) : ¬ EndsWith suffix (disk.destination p) := by
  rintro ⟨stem, hstem⟩
  rw [Disk.getLast?_destination h, Option.some.injEq] at hstem
  exact hname stem hstem

theorem cutExtension_document (stem : String) :
    (Path.cutExtension (stem ++ ".g.puml")).2 = some "puml" := by
  simp [Path.cutExtension]

theorem not_endsWith_of_extension? (h : p.extension? = some "tscn") :
    ¬ EndsWith ".g.puml" (disk.destination p) := by
  obtain ⟨name, hname, hextension⟩ := Option.bind_eq_some_iff.mp h
  refine not_endsWith_of_fileName? hname ?_
  rintro stem rfl
  rw [cutExtension_document] at hextension
  simp at hextension

theorem not_endsWith_child (hn : IsName name) (hname : stripTail? suffix name = none)
    (dir : Path) : ¬ EndsWith suffix (disk.destination (dir.child name)) := by
  refine not_endsWith_of_fileName? (Path.fileName?_child hn dir) ?_
  rintro stem rfl
  simp [stripTail?, after?_append] at hname

-- ---------------------------------------------------------------------------
-- Files
-- ---------------------------------------------------------------------------

theorem entry?_of_readText (h : disk.readText p = .ok text) :
    ∃ c, disk.entry? p = some (.file c) := by
  unfold Disk.readText at h
  split at h
  · cases h
  · cases h
  · next c hfile => exact ⟨c, hfile⟩

theorem exists?_of_readText (h : disk.readText p = .ok text) : disk.exists? p := by
  obtain ⟨c, hfile⟩ := entry?_of_readText h
  simp [Disk.exists?, hfile]

namespace SameBut

theorem readText (h : SameBut suffix disk after) (hp : ¬ EndsWith suffix (disk.destination p))
    (hread : disk.readText p = .ok text) : after.readText p = .ok text := by
  obtain ⟨c, hfile⟩ := entry?_of_readText hread
  rw [Disk.readText, hfile] at hread
  rw [Disk.readText, h.keeps.stays hfile hp]
  exact hread

theorem readData {ofData? : Data → Option α} (h : SameBut suffix disk after)
    (hp : ¬ EndsWith suffix (disk.destination p)) (hread : readData disk p what ofData? = .ok a) :
    after.exists? p ∧ CommandLine.readData after p what ofData? = .ok a := by
  obtain ⟨text, htext, hparse⟩ := bind_ok.mp hread
  have hagain := h.readText hp (mapError_eq_ok.mp htext)
  exact ⟨exists?_of_readText hagain, bind_ok.mpr ⟨text, mapError_eq_ok.mpr hagain, hparse⟩⟩

-- ---------------------------------------------------------------------------
-- Settings
-- ---------------------------------------------------------------------------

theorem loadConfig (h : SameBut ".g.puml" disk after)
    (hload : loadConfig disk settingsDir given = .ok config)
    (hgiven : ∀ p ∈ given, ¬ EndsWith ".g.puml" (disk.destination p))
    (hplaces : given = none → (configPlaces settingsDir).find? after.exists? =
      (configPlaces settingsDir).find? disk.exists?) :
    CommandLine.loadConfig after settingsDir given = .ok config := by
  cases given with
  | some p =>
    simp only [CommandLine.loadConfig] at hload ⊢
    split at hload
    · obtain ⟨hexists, hread⟩ := h.readData (hgiven p rfl) hload
      rw [if_pos hexists]
      exact hread
    · cases hload
  | none =>
    simp only [CommandLine.loadConfig, hplaces rfl] at hload ⊢
    cases hfind : (configPlaces settingsDir).find? disk.exists? with
    | none => simpa [hfind] using hload
    | some p =>
      simp only [hfind] at hload ⊢
      refine (h.readData ?_ hload).2
      have hp := List.mem_of_find?_eq_some hfind
      simp only [configPlaces, List.mem_cons, Option.mem_toList, Option.map_eq_some_iff] at hp
      have hchild (dir : Path) :
          ¬ EndsWith ".g.puml" (disk.destination (dir.child "config.toml")) :=
        not_endsWith_child (by decide) (by decide) dir
      rcases hp with rfl | ⟨dir, -, rfl⟩
      · exact hchild ⟨"scenery"⟩
      · exact hchild (dir.child "scenery")

theorem loadDeclarations (h : SameBut ".g.puml" disk after)
    (hload : loadDeclarations disk dir given = .ok declarations)
    (hgiven : ∀ p ∈ given, ¬ EndsWith ".g.puml" (disk.destination p))
    (hmanifest : given = none → after.exists? (manifestIn dir) → disk.exists? (manifestIn dir)) :
    CommandLine.loadDeclarations after dir given = .ok declarations := by
  cases given with
  | some p =>
    simp only [CommandLine.loadDeclarations] at hload ⊢
    split at hload
    · obtain ⟨hexists, hread⟩ := h.readData (hgiven p rfl) hload
      rw [if_pos hexists]
      exact hread
    · cases hload
  | none =>
    simp only [CommandLine.loadDeclarations] at hload ⊢
    split at hload
    · obtain ⟨hexists, hread⟩ :=
        h.readData (not_endsWith_child (by decide) (by decide) dir) hload
      exact (if_pos hexists).trans hread
    · next hmissing =>
      rw [if_neg (mt (hmanifest rfl) hmissing)]
      exact hload

-- ---------------------------------------------------------------------------
-- Scenes
-- ---------------------------------------------------------------------------

theorem under_file_iff (h : SameBut suffix disk after)
    (hplace : disk.place? dir = some (disk.destination dir))
    (hp : ¬ EndsWith suffix (disk.destination dir ++ below)) (c : ByteArray) :
    disk.Under dir below (.file c) ↔ after.Under dir below (.file c) := by
  have hdest := h.keeps.destination dir
  constructor
  · intro hunder
    refine hunder.of_standing? h.keeps.workingDir h.keeps.root.folder ?_
    rw [hdest]
    exact (h.keeps.root.file _ c hunder.standing?).resolve_left hp
  · intro hunder
    obtain ⟨-, hs, hask⟩ := Disk.under_iff.mp hunder
    rw [hdest] at hs
    exact Disk.under_iff.mpr ⟨hplace, (h.nothingNew _ c hs).resolve_left hp, hask⟩

theorem findScenes (h : SameBut ".g.puml" disk after) (hwell : disk.root.WellFormed)
    (hfind : findScenes disk dir "tscn" = .ok scenes) (hdir : after.exists? dir)
    (hfolders : ∀ below, after.Under dir below .folder → (∀ n ∈ below, !isHidden n) →
      (below.foldl Path.child dir).isUsable) :
    CommandLine.findScenes after dir "tscn" = .ok scenes := by
  obtain ⟨found, hfound, hscenes⟩ := bind_ok.mp hfind
  cases hscenes
  have hwell' := h.keeps.root.wellFormed
  obtain ⟨found', hfound'⟩ : ∃ found', visibleFiles after dir = .ok found' :=
    Disk.exists_filesWhere hwell' hdir hfolders
  obtain ⟨e, he, -⟩ := Disk.filesWhere_ok hfound
  have hplace := (Disk.place?_of_entry he).1
  refine bind_ok.mpr ⟨found', hfound', congrArg Except.ok ?_⟩
  refine (Disk.filesWhere_congr hwell hwell' hfound hfound' fun below hp => ?_).symm
  -- The names on the way to a file are those of its place.
  have hiff {c : ByteArray}
      (hunder : disk.Under dir below (.file c) ∨ after.Under dir below (.file c)) :
      disk.Under dir below (.file c) ↔ after.Under dir below (.file c) := by
    have hnames : ∀ n ∈ below, IsName n := hunder.elim (·.isName hwell) (·.isName hwell')
    refine h.under_file_iff hplace ?_ c
    rw [← Disk.destination_foldl_child disk dir hnames]
    exact not_endsWith_of_extension? (beq_iff_eq.mp hp)
  constructor
  · rintro ⟨c, hc⟩
    exact ⟨c, (hiff (.inl hc)).mp hc⟩
  · rintro ⟨c, hc⟩
    exact ⟨c, (hiff (.inr hc)).mpr hc⟩

end SameBut

-- ---------------------------------------------------------------------------
-- Projects
-- ---------------------------------------------------------------------------

theorem extension?_of_findScenes {extension : String}
    (hfind : findScenes disk dir extension = .ok scenes) (hp : p ∈ scenes) :
    p.extension? = some extension := by
  obtain ⟨found, -, hscenes⟩ := bind_ok.mp hfind
  cases hscenes
  exact beq_iff_eq.mp (List.mem_filter.mp hp).2

namespace Job

variable {args : Arguments} {settingsDir : Option Path} {job : Job} {gen : Generation}

/-- The files that the arguments name for settings and manifest are not named like
documents. -/
def NamesNoDocument (args : Arguments) (disk : Disk) : Prop :=
  ∀ text, args.config = some text ∨ args.declarations = some text →
    ¬ EndsWith ".g.puml" (disk.destination ⟨text⟩)

/-- What a run looks for and may miss is found on the second disk where it was on the
first, and the project can be walked there. -/
structure Undisturbed (job : Job) (args : Arguments) (settingsDir : Option Path)
    (disk after : Disk) : Prop where
  project : after.exists? job.project
  folders : ∀ below, after.Under job.project below .folder → (∀ n ∈ below, !isHidden n) →
    (below.foldl Path.child job.project).isUsable
  settings : args.config = none → (configPlaces settingsDir).find? after.exists? =
    (configPlaces settingsDir).find? disk.exists?
  manifest : args.declarations = none → after.exists? (manifestIn job.project) →
    disk.exists? (manifestIn job.project)

theorem ofArguments_ok : ofArguments args settingsDir disk = .ok job ↔
    absolutePath disk args.project = .ok job.project ∧
    args.outputDir.elim (.ok job.project) (absolutePath disk) = .ok job.target ∧
    loadConfig disk settingsDir (args.config.map Path.mk) = .ok job.config ∧
    job.manifest = args.declarations.map Path.mk := by
  obtain ⟨project, target, config, manifest⟩ := job
  have hpure {α : Type} (a : α) : (pure a : Except Failure α) = .ok a := rfl
  unfold ofArguments
  rw [bind_ok]
  cases args.outputDir with
  | none =>
    simp only [hpure, bind_ok, Except.ok.injEq, mk.injEq, Option.elim]
    grind
  | some dir =>
    simp only [hpure, bind_ok, Except.ok.injEq, mk.injEq, Option.elim]
    grind

theorem absolutePath_again (h : SameBut suffix disk after) (text : String) :
    absolutePath after text = absolutePath disk text := by
  rw [absolutePath, absolutePath, Disk.absolute?, Disk.absolute?, h.keeps.workingDir]

theorem ofArguments_again (h : SameBut ".g.puml" disk after)
    (hsame : job.Undisturbed args settingsDir disk after) (hnames : NamesNoDocument args disk)
    (hjob : ofArguments args settingsDir disk = .ok job) :
    ofArguments args settingsDir after = .ok job := by
  obtain ⟨hproject, htarget, hconfig, hmanifest⟩ := ofArguments_ok.mp hjob
  have habsolute : absolutePath after = absolutePath disk := funext (absolutePath_again h)
  refine ofArguments_ok.mpr ⟨habsolute ▸ hproject, habsolute ▸ htarget, ?_, hmanifest⟩
  refine h.loadConfig hconfig (fun p hp => ?_) fun hnone => hsame.settings (by simpa using hnone)
  obtain ⟨text, htext, rfl⟩ := Option.map_eq_some_iff.mp hp
  exact hnames text (.inl htext)

theorem readProject_again (h : SameBut ".g.puml" disk after) (hwell : disk.root.WellFormed)
    (hextension : job.config.analysis.sceneExtension = "tscn")
    (hsame : job.Undisturbed args settingsDir disk after) (hnames : NamesNoDocument args disk)
    (hmanifest : job.manifest = args.declarations.map Path.mk) {project : Project}
    (hread : job.readProject disk = .ok project) : job.readProject after = .ok project := by
  obtain ⟨paths, hpaths, hread⟩ := bind_ok.mp hread
  obtain ⟨scenes, hscenes, hread⟩ := bind_ok.mp hread
  obtain ⟨declarations, hdeclarations, hread⟩ := bind_ok.mp hread
  rw [hextension] at hpaths
  have hfind := mapError_eq_ok.mp hpaths
  refine bind_ok.mpr ⟨paths, ?_, bind_ok.mpr ⟨scenes, mapM_ok_of_imp paths hscenes ?_,
    bind_ok.mpr ⟨declarations, ?_, hread⟩⟩⟩
  · rw [hextension]
    exact mapError_eq_ok.mpr (h.findScenes hwell hfind hsame.project hsame.folders)
  · intro p hp scene hscene
    obtain ⟨text, htext, hscene⟩ := bind_ok.mp hscene
    have hp : ¬ EndsWith ".g.puml" (disk.destination p) :=
      not_endsWith_of_extension? (extension?_of_findScenes hfind hp)
    have hagain := h.readText hp (mapError_eq_ok.mp htext)
    exact bind_ok.mpr ⟨text, mapError_eq_ok.mpr hagain, hscene⟩
  · rw [hmanifest] at hdeclarations ⊢
    refine h.loadDeclarations hdeclarations (fun p hp => ?_) fun hnone =>
      hsame.manifest (by simpa using hnone)
    obtain ⟨text, htext, rfl⟩ := Option.map_eq_some_iff.mp hp
    exact hnames text (.inr htext)

end Job

end SceneDiagram.CommandLine
