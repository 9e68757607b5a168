import SceneDiagram.CommandLine.Discovery
import SceneDiagram.Proofs.Basic
import SceneDiagram.Proofs.Disk.Below
import SceneDiagram.Proofs.Path.Extension
import SceneDiagram.Proofs.Text.ByteOrder

/-!
# Which scenes are found

`findScenes_exact`: the scenes that are found below a directory are the files with the
extension and without a hidden name on the way to them, in ascending order of their paths,
if all folders on the way can be entered. A folder whose path is too long cannot
(`not_findScenes_exact`).
-/

namespace SceneDiagram

open SceneDiagram.Path (IsName)

-- ---------------------------------------------------------------------------
-- The order of paths
-- ---------------------------------------------------------------------------

/-- The order of paths by their components, and of these by their bytes. -/
def Path.Before (p q : Path) : Prop :=
  p.components.map (Text.bytes ·.text) < q.components.map (Text.bytes ·.text)

theorem map_bytes_lt {a b : Place} (h : a < b) : a.map Text.bytes < b.map Text.bytes := by
  induction h with
  | nil => exact List.Lex.nil
  | cons _ ih => exact List.Lex.cons ih
  | rel h => exact List.Lex.rel (Text.lt_iff_bytes_lt.mp h)

theorem Path.before_of_lt {a b : Place} (ha : ∀ n ∈ a, IsName n) (hb : ∀ n ∈ b, IsName n)
    (h : a < b) (dir : Path) : Before (a.foldl child dir) (b.foldl child dir) := by
  rw [Before, components_foldl_child ha, components_foldl_child hb, List.map_append,
    List.map_append, List.map_map, List.map_map]
  exact List.append_left_lt (map_bytes_lt h)

namespace CommandLine

variable {disk : Disk} {dir p : Path} {below : Place} {extension name : String}
  {scenes found : List Path}

-- ---------------------------------------------------------------------------
-- What is found
-- ---------------------------------------------------------------------------

/-- The name has something in front of its last point, and the extension behind it. -/
def HasExtension (extension name : String) : Prop :=
  ∃ stem, stem ≠ "" ∧ '.' ∉ extension.toList ∧ name = stem ++ "." ++ extension

/-- The scenes below a directory: each file that is not hidden, is in no hidden folder and
has the extension, once, in ascending order. -/
structure Finds (disk : Disk) (dir : Path) (extension : String) (scenes : List Path) : Prop where
  mem_iff : ∀ p, p ∈ scenes ↔ ∃ below name content,
    disk.Under dir (below ++ [name]) (.file content) ∧ (∀ n ∈ below ++ [name], !isHidden n) ∧
      HasExtension extension name ∧ p = (below ++ [name]).foldl Path.child dir
  ascending : scenes.Pairwise Path.Before

/-- The folders below a directory that are not hidden have paths that can be followed. -/
def Enterable (disk : Disk) (dir : Path) : Prop :=
  ∀ below, disk.Under dir below .folder → (∀ n ∈ below, !isHidden n) →
    (below.foldl Path.child dir).isUsable

theorem findScenes_ok : findScenes disk dir extension = .ok scenes ↔
    ∃ found, disk.filesWhere (!isHidden ·) dir = .ok found ∧
      scenes = found.filter (·.extension? == some extension) := by
  rw [findScenes, bind_ok]
  refine exists_congr fun found => and_congr_right fun _ => ⟨fun h => ?_, fun h => h ▸ rfl⟩
  cases h
  rfl

theorem pairwise_filesWhere (h : disk.root.WellFormed)
    (hfound : disk.filesWhere shown dir = .ok found) : found.Pairwise Path.Before := by
  obtain ⟨e, hentry, rfl⟩ := Disk.filesWhere_ok hfound
  have hwell := Disk.wellFormed_of_entry h hentry
  have hnames {f : Place × ByteArray} (hf : f ∈ e.filesWhere shown) : ∀ n ∈ f.1, IsName n :=
    Disk.Under.isName h ((Disk.under_iff_of_entry hentry).mpr
      ((Entry.mem_filesWhere hwell f.1).mp hf).1)
  rw [List.pairwise_map]
  refine (List.pairwise_map.mp (Entry.filesWhere_sorted hwell shown)).imp_of_mem ?_
  intro f g hf hg hlt
  exact Path.before_of_lt (hnames hf) (hnames hg) hlt dir

theorem exists_name_of_under {c : ByteArray} (hdir : disk.Under dir [] .folder)
    (h : disk.Under dir below (.file c)) : ∃ lead name, below = lead ++ [name] := by
  rcases List.eq_nil_or_concat below with rfl | hname
  · cases hdir.standing?.symm.trans h.standing?
  · simpa using hname

theorem extension?_foldl_child (h : ∀ n ∈ below ++ [name], IsName n) (dir : Path) :
    ((below ++ [name]).foldl Path.child dir).extension? = some extension ↔
      HasExtension extension name := by
  rw [Path.extension?, Path.fileName?_foldl_child h, Option.bind_some, Path.cutExtension_eq_some]
  rfl

theorem finds_of_filesWhere (h : disk.root.WellFormed) (hdir : disk.Under dir [] .folder)
    (hfound : disk.filesWhere (!isHidden ·) dir = .ok found) :
    Finds disk dir extension (found.filter (·.extension? == some extension)) := by
  refine ⟨fun p => ?_, (pairwise_filesWhere h hfound).filter _⟩
  rw [List.mem_filter, Disk.mem_of_filesWhere h hfound, beq_iff_eq]
  constructor
  · rintro ⟨⟨below, c, hunder, hshown, rfl⟩, hextension⟩
    obtain ⟨lead, name, rfl⟩ := exists_name_of_under hdir hunder
    exact ⟨lead, name, c, hunder, hshown,
      (extension?_foldl_child (hunder.isName h) dir).mp hextension, rfl⟩
  · rintro ⟨lead, name, c, hunder, hshown, hextension, rfl⟩
    exact ⟨⟨_, c, hunder, hshown, rfl⟩,
      (extension?_foldl_child (hunder.isName h) dir).mpr hextension⟩

/-- Below a directory all scenes are found, and no others, unless a folder cannot be entered. -/
theorem findScenes_exact (h : disk.root.WellFormed) (hdir : disk.Under dir [] .folder)
    (extension : String) :
    (Enterable disk dir →
      ∃ scenes, findScenes disk dir extension = .ok scenes ∧ Finds disk dir extension scenes) ∧
    (¬ Enterable disk dir → ∃ fault, findScenes disk dir extension = .error fault) := by
  constructor
  · intro henter
    have hexists : disk.exists? dir := by
      obtain ⟨e, hentry, -⟩ := hdir
      simp [Disk.exists?, hentry]
    obtain ⟨found, hfound⟩ := Disk.exists_filesWhere h hexists henter
    exact ⟨_, findScenes_ok.mpr ⟨found, hfound, rfl⟩, finds_of_filesWhere h hdir hfound⟩
  · intro hshut
    cases hscenes : findScenes disk dir extension with
    | error fault => exact ⟨fault, rfl⟩
    | ok scenes =>
      obtain ⟨found, hfound, -⟩ := findScenes_ok.mp hscenes
      exact absurd (fun below hfolder hshown => Disk.isUsable_of_filesWhere h hfound hfolder hshown)
        hshut

def sideBySide : Disk where
  root := .folder ".g" (.folder ".old" (.file "A.tscn" .empty .empty)
    (.folder "a" (.file "x.tscn" .empty .empty) (.file "a.tscn" .empty .empty))) .empty
  workingDir := ⟨"/"⟩

theorem findScenes_exact_sideBySide : sideBySide.root.WellFormed ∧
    sideBySide.Under ⟨".g"⟩ [] .folder ∧ Enterable sideBySide ⟨".g"⟩ ∧
    findScenes sideBySide ⟨".g"⟩ "tscn" = .ok [⟨".g/a/x.tscn"⟩, ⟨".g/a.tscn"⟩] ∧
    Finds sideBySide ⟨".g"⟩ "tscn" [⟨".g/a/x.tscn"⟩, ⟨".g/a.tscn"⟩] := by
  have hwell : sideBySide.root.WellFormed := by decide +kernel
  have hdir : sideBySide.Under ⟨".g"⟩ [] .folder := ⟨_, rfl, rfl⟩
  have hscenes : findScenes sideBySide ⟨".g"⟩ "tscn" = .ok [⟨".g/a/x.tscn"⟩, ⟨".g/a.tscn"⟩] := by
    decide +kernel
  have henter : Enterable sideBySide ⟨".g"⟩ := by
    by_contra hshut
    obtain ⟨fault, hfault⟩ := (findScenes_exact hwell hdir "tscn").2 hshut
    rw [hscenes] at hfault
    cases hfault
  obtain ⟨scenes, hfound, hfinds⟩ := (findScenes_exact hwell hdir "tscn").1 henter
  rw [hscenes] at hfound
  cases hfound
  exact ⟨hwell, hdir, henter, hscenes, hfinds⟩

def trailing (s : String) : Nat → String
  | 0 => s
  | n + 1 => trailing s n ++ "/"

theorem trail_trailing (s : String) (n : Nat) : Path.trail ⟨trailing s n⟩ = Path.trail ⟨s⟩ := by
  induction n with
  | zero => rfl
  | succ n ih =>
    have := Path.trail_slash (trailing s n) ""
    rwa [String.append_empty, Path.trail_empty, List.append_nil, ih] at this

theorem toList_trailing (s : String) (n : Nat) :
    (trailing s n).toList = s.toList ++ List.replicate n '/' := by
  induction n with
  | zero => simp [trailing]
  | succ n ih => simp [trailing, ih, List.replicate_succ']

theorem size_trailing (s : String) (n : Nat) :
    (trailing s n).utf8ByteSize = s.utf8ByteSize + n := by
  induction n with
  | zero => rfl
  | succ n ih =>
    rw [trailing, String.utf8ByteSize_append, ih]
    rfl

theorem isUsable_trailing (h : Path.isUsable ⟨s⟩) (hsize : s.utf8ByteSize + n ≤ 4095) :
    Path.isUsable ⟨trailing s n⟩ := by
  simp only [Path.isUsable, Bool.and_eq_true, decide_eq_true_eq, Bool.not_eq_true',
    List.contains_eq_mem, decide_eq_false_iff_not] at h ⊢
  rw [size_trailing, toList_trailing, List.mem_append, List.mem_replicate]
  exact ⟨hsize, by simp [h.2]⟩

theorem place?_trailing (h : disk.place? ⟨s⟩ = some q) (hsize : s.utf8ByteSize + n ≤ 4095) :
    disk.place? ⟨trailing s n⟩ = some q := by
  obtain ⟨hne, husable⟩ := Disk.isUsable_of_place? h
  have hempty : trailing s n ≠ "" := by
    rw [ne_eq, ← String.toList_eq_nil_iff, toList_trailing]
    simp [show s ≠ "" from hne]
  have habsolute : Path.isAbsolute ⟨trailing s n⟩ = Path.isAbsolute ⟨s⟩ := by
    obtain ⟨c, cs, hs⟩ := List.exists_cons_of_ne_nil (mt String.toList_eq_nil_iff.mp hne)
    simp [Path.isAbsolute, toList_trailing, hs]
  have htrail : (disk.workingDir.resolve ⟨trailing s n⟩).trail =
      (disk.workingDir.resolve ⟨s⟩).trail := by
    by_cases hs : Path.isAbsolute ⟨s⟩
    · rw [Path.resolve_of_isAbsolute _ hs, Path.resolve_of_isAbsolute _ (habsolute.trans hs),
        trail_trailing]
    · rw [Path.trail_resolve _ hs, Path.trail_resolve _ (habsolute ▸ hs), trail_trailing]
  unfold Disk.place? at h ⊢
  rw [if_neg (by simp [hempty, isUsable_trailing husable hsize])]
  rw [if_neg (by simp [show s ≠ "" from hne, husable])] at h
  rw [← h, Disk.steps, Disk.steps, Directory.follow?_components, Directory.follow?_components,
    htrail]

def oneFolder : Disk where
  root := .folder "g" (.folder "d" (.file "A.tscn" .empty .empty) .empty) .empty
  workingDir := ⟨"/"⟩

/-- A folder that a scene stands in cannot be entered where its path is too long. -/
theorem not_findScenes_exact : ¬ ∀ (disk : Disk) (dir : Path) (extension : String),
    disk.root.WellFormed → disk.Under dir [] .folder →
    ∃ scenes, findScenes disk dir extension = .ok scenes ∧ Finds disk dir extension scenes := by
  intro h
  have hwell : oneFolder.root.WellFormed := by decide +kernel
  -- With so many slashes behind it the path of the project is as long as paths can be.
  obtain ⟨dir, hplace, hsize⟩ : ∃ dir : Path, oneFolder.place? dir = some ["g"] ∧
      dir.text.utf8ByteSize = 4095 :=
    ⟨⟨trailing "g" 4094⟩, place?_trailing (by decide +kernel) (by decide +kernel),
      size_trailing "g" 4094⟩
  have hfolder : oneFolder.Under dir ["d"] .folder := Disk.under_of_standing? hplace rfl
  have hdir : oneFolder.Under dir [] .folder := by
    obtain ⟨e, hentry, hs⟩ := hfolder
    cases e with
    | file c => cases hs
    | folder entries => exact ⟨_, hentry, rfl⟩
  obtain ⟨scenes, hscenes, -⟩ := h oneFolder dir "tscn" hwell hdir
  obtain ⟨found, hfound, -⟩ := findScenes_ok.mp hscenes
  have husable : (dir.child "d").isUsable :=
    Disk.isUsable_of_filesWhere hwell hfound hfolder (by decide)
  have hlong : dir.text.utf8ByteSize < (dir.child "d").text.utf8ByteSize :=
    Path.size_child (by decide) dir
  simp only [Path.isUsable, Bool.and_eq_true, decide_eq_true_eq] at husable
  omega

end CommandLine

end SceneDiagram
