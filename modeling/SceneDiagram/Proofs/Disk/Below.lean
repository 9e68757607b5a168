import Mathlib.Data.List.Induction
import SceneDiagram.Proofs.Directory.Walk
import SceneDiagram.Proofs.Disk.Effect
import SceneDiagram.Proofs.Path.Spelling

/-!
# What is found below a path

A walk below a path finds the files that stand there at shown places (`mem_of_filesWhere`),
each by a path that leads to it if it can be followed at all (`Under.entry?_eq`). The walk
comes to an end where the paths of the folders can be followed (`exists_filesWhere`).
-/

namespace SceneDiagram

open SceneDiagram.Path (IsName)

-- ---------------------------------------------------------------------------
-- Paths of children
-- ---------------------------------------------------------------------------

namespace Path

open Text

variable {n : String} {names : List String}

theorem exists_split_child (h : IsName n) (base : Path) :
    ∃ parts, split '/' (base.child n).text = parts ++ [n] := by
  have hn := split_of_not_mem h.noSlash
  obtain ⟨-, hr⟩ | ⟨t, -, -, hr⟩ := resolve_cases base (not_isAbsolute_of_noSlash h.noSlash)
  · exact ⟨[], by rw [child, hr, hn]; rfl⟩
  · exact ⟨split '/' t, by rw [child, hr, split_slash, hn]⟩

theorem asksFolder_child (h : IsName n) (base : Path) : (base.child n).asksFolder = false := by
  obtain ⟨parts, hparts⟩ := exists_split_child h base
  simp [asksFolder, hparts, h.ne_empty, h.ne_here]

theorem fileName?_foldl_child (h : ∀ m ∈ names ++ [n], IsName m) (base : Path) :
    ((names ++ [n]).foldl child base).fileName? = some n := by
  rw [fileName?, components_foldl_child h]
  simp

theorem fileName?_child (h : IsName n) (base : Path) : (base.child n).fileName? = some n := by
  have hlast : ∀ m ∈ [] ++ [n], IsName m := by simpa using h
  exact fileName?_foldl_child hlast base

theorem text_foldl_child_ne (hbase : base.text ≠ "") (h : ∀ m ∈ names, IsName m) :
    (names.foldl child base).text ≠ "" := by
  rw [ne_eq, ← components_eq_nil, components_foldl_child h]
  rw [ne_eq, ← components_eq_nil] at hbase
  simp [hbase]

theorem isAbsolute_iff {p : Path} : p.isAbsolute ↔ p.components.head? = some .root := by
  constructor
  · intro h
    rw [components_of_isAbsolute h]
    rfl
  · intro h
    by_contra habsolute
    rw [components_eq, front, if_neg habsolute] at h
    split at h
    · cases h
    · cases isInner_of_mem_trail (List.mem_of_head? h)

theorem trail_resolve_foldl_child (h : ∀ m ∈ names, IsName m) (cwd base : Path) :
    (cwd.resolve (names.foldl child base)).trail =
      (cwd.resolve base).trail ++ names.map .name := by
  induction names generalizing base with
  | nil => simp
  | cons n names ih =>
    obtain ⟨hn, hnames⟩ := List.forall_mem_cons.mp h
    have hrelative := not_isAbsolute_of_noSlash hn.noSlash
    have hchild : (base.child n).trail = base.trail ++ [.name n] := by
      rw [child, trail_resolve base hrelative]
      exact congrArg _ (trail_piece (.name hn))
    have hone : (cwd.resolve (base.child n)).trail = (cwd.resolve base).trail ++ [.name n] := by
      by_cases hbase : base.isAbsolute
      · rw [resolve_of_isAbsolute cwd hbase, resolve_of_isAbsolute cwd, hchild]
        rw [child, isAbsolute_resolve base hrelative, hbase]
      · rw [trail_resolve cwd hbase, trail_resolve cwd, hchild, List.append_assoc]
        rw [child, isAbsolute_resolve base hrelative]
        exact hbase
    rw [List.foldl_cons, ih hnames, hone, List.append_assoc]
    rfl

theorem size_child (h : IsName n) (base : Path) :
    base.text.utf8ByteSize < (base.child n).text.utf8ByteSize := by
  have hn : n.utf8ByteSize ≠ 0 := String.utf8ByteSize_eq_zero_iff.not.mpr h.ne_empty
  rw [child, resolve, if_neg (not_isAbsolute_of_noSlash h.noSlash)]
  split <;> simp <;> omega

theorem size_foldl_child (h : ∀ n ∈ names, IsName n) (base : Path) :
    base.text.utf8ByteSize + names.length ≤ (names.foldl child base).text.utf8ByteSize := by
  induction names generalizing base with
  | nil => simp
  | cons n names ih =>
    obtain ⟨hn, hnames⟩ := List.forall_mem_cons.mp h
    have hone := size_child hn base
    have hrest := ih hnames (base.child n)
    rw [List.length_cons, List.foldl_cons]
    omega

end Path

-- ---------------------------------------------------------------------------
-- Following names
-- ---------------------------------------------------------------------------

namespace Directory

variable {d : Directory} {place names : List String}

theorem follow?_append (as bs : List Path.Component) :
    d.follow? place (as ++ bs) = (d.follow? place as).bind (d.follow? · bs) := by
  induction as generalizing place with
  | nil => rfl
  | cons a as ih =>
    simp only [List.cons_append, follow?]
    split
    · rfl
    · cases a <;> exact ih

theorem follow?_components (p : Path) : d.follow? [] p.components = d.follow? [] p.trail := by
  have hroot : d.hasFolder [] := rfl
  rw [Path.components_eq]
  unfold Path.front
  split
  · simp [follow?, hroot]
  · split <;> simp [follow?, hroot]

theorem standing?_of_append (h : d.standing? (place ++ n :: names) = some s) :
    d.standing? place = some .folder := by
  induction names using List.reverseRecOn generalizing s with
  | nil => exact standing?_above h
  | append_singleton names m ih =>
    rw [← List.cons_append, ← List.append_assoc] at h
    exact ih (standing?_above h)

theorem follow?_names (h : d.standing? (place ++ names) = some s) :
    d.follow? place (names.map .name) = some (place ++ names) := by
  induction names generalizing place with
  | nil => simp [follow?]
  | cons n names ih =>
    have hfolder : d.hasFolder place := hasFolder_iff.mpr (standing?_of_append h)
    rw [List.append_cons] at h ⊢
    simp only [List.map_cons, follow?, hfolder]
    exact ih h

theorem find?_append (e : Entry) (p q : Place) :
    e.find? (p ++ q) = (e.find? p).bind (·.find? q) := by
  induction p generalizing e with
  | nil => rw [List.nil_append]; cases e <;> rfl
  | cons n p ih =>
    cases e with
    | file content => rfl
    | folder d =>
      rw [List.cons_append, Entry.find?, Entry.find?]
      cases d.get? n with
      | none => rfl
      | some e => exact ih e

theorem standing?_append (h : d.find? place = some e) (q : Place) :
    d.standing? (place ++ q) = e.standing? q := by
  rw [standing?_eq_map, find?, find?_append, ← find?, h, Option.bind_some]
  rfl

end Directory

-- ---------------------------------------------------------------------------
-- What stands below a path
-- ---------------------------------------------------------------------------

namespace Disk

-- No proof here looks at how long a path may be.
attribute [local irreducible] Path.isUsable

variable {d : Disk} {dir p : Path} {below q : Place} {s : Standing} {c : ByteArray}
  {shown : String → Bool} {found : List Path}

theorem destination_congr {p' : Path} (h : p.components = p'.components) :
    d.destination p = d.destination p' := by
  have hread (p : Path) : d.destination p =
      Path.reach (if p.isAbsolute then [] else Path.reach [] d.workingDir.trail) p.components := by
    rw [destination, steps, Path.reach_components, Path.reach_components]
    split
    · next hp => rw [Path.resolve_of_isAbsolute _ hp]
    · next hp => rw [Path.trail_resolve _ hp, Path.reach_append]
  have habsolute : p.isAbsolute = p'.isAbsolute := by
    rw [Bool.eq_iff_iff, Path.isAbsolute_iff, Path.isAbsolute_iff, h]
  rw [hread, hread, habsolute, h]

/-- This stands at a place below what a path leads to. -/
def Under (d : Disk) (dir : Path) (below : Place) (s : Standing) : Prop :=
  ∃ e, d.entry? dir = some e ∧ e.standing? below = some s

theorem place?_of_entry (h : d.entry? p = some e) : d.place? p = some (d.destination p) ∧
    d.root.find? (d.destination p) = some e := by
  simp only [ entry?, Option.bind_eq_bind, Option.bind_eq_some_iff] at h
  obtain ⟨place, hplace, x, hx, h⟩ := h
  cases place?_eq hplace
  cases x with
  | folder entries =>
    cases h
    exact ⟨hplace, hx⟩
  | file content =>
    simp only at h
    split at h
    · cases h
    · cases h
      exact ⟨hplace, hx⟩

theorem Under.place? (h : d.Under dir below s) : d.place? dir = some (d.destination dir) := by
  obtain ⟨e, he, -⟩ := h
  exact (place?_of_entry he).1

theorem Under.standing? (h : d.Under dir below s) :
    d.root.standing? (d.destination dir ++ below) = some s := by
  obtain ⟨e, he, hs⟩ := h
  rw [Directory.standing?_append (place?_of_entry he).2, hs]

theorem under_of_standing? (hplace : d.place? dir = some q)
    (hs : d.root.standing? (q ++ n :: below) = some s) : d.Under dir (n :: below) s := by
  have hfolder := Directory.standing?_of_append hs
  rw [← Directory.hasFolder_iff, Directory.hasFolder] at hfolder
  split at hfolder
  · next entries hfind =>
    refine ⟨.folder entries, by simp [ entry?, hplace, hfind], ?_⟩
    rw [← hs, Directory.standing?_append hfind]
  · cases hfolder

theorem under_nil_file : d.Under dir [] (.file c) ↔ d.entry? dir = some (.file c) := by
  constructor
  · rintro ⟨e, he, hs⟩
    cases e with
    | file content =>
      cases hs
      exact he
    | folder entries => cases hs
  · exact fun h => ⟨_, h, rfl⟩

/-- What stands below a path is what stands below its place. Only for a file at the place
itself it counts how the path is written. -/
theorem under_iff : d.Under dir below s ↔ d.place? dir = some (d.destination dir) ∧
    d.root.standing? (d.destination dir ++ below) = some s ∧
    (below = [] → s ≠ .folder → dir.asksFolder = false) := by
  constructor
  · intro h
    refine ⟨h.place?, h.standing?, ?_⟩
    rintro rfl hs
    cases s with
    | file c => exact (entry?_eq_file_iff.mp (under_nil_file.mp h)).2.2
    | folder => exact absurd rfl hs
  · rintro ⟨hplace, hs, hask⟩
    cases below with
    | cons n below => exact under_of_standing? hplace hs
    | nil =>
      rw [List.append_nil] at hs
      cases s with
      | file c =>
        exact under_nil_file.mpr (entry?_eq_file_iff.mpr ⟨hplace, hs, hask rfl nofun⟩)
      | folder =>
        rw [← Directory.hasFolder_iff, Directory.hasFolder] at hs
        split at hs
        · next entries hfind => exact ⟨.folder entries, by simp [ entry?, hplace, hfind], rfl⟩
        · cases hs

/-- What stands below a path on one disk stands there on another, if the other has the
folders on the way, and it at its place. -/
theorem Under.of_standing? {d' : Disk} (h : d'.Under dir below s)
    (hdir : d.workingDir = d'.workingDir)
    (hfolders : ∀ q, d'.root.standing? q = some .folder → d.root.standing? q = some .folder)
    (hs : d.root.standing? (d.destination dir ++ below) = some s) : d.Under dir below s := by
  obtain ⟨hplace, -, hask⟩ := under_iff.mp h
  refine under_iff.mpr ⟨?_, hs, hask⟩
  rw [destination_of_workingDir hdir]
  exact place?_mono hdir hfolders hplace

theorem Under.mono {d' : Disk} (h : d'.Under dir below s) (hdir : d.workingDir = d'.workingDir)
    (hstands : ∀ q s, d'.root.standing? q = some s → d.root.standing? q = some s) :
    d.Under dir below s := by
  refine h.of_standing? hdir (fun q => hstands q _) ?_
  rw [destination_of_workingDir hdir]
  exact hstands _ s h.standing?

theorem place?_foldl_child (hdir : d.place? dir = some q) (hbelow : ∀ n ∈ below, IsName n)
    (hs : d.root.standing? (q ++ below) = some s)
    (husable : (below.foldl Path.child dir).isUsable) :
    d.place? (below.foldl Path.child dir) = some (q ++ below) := by
  have hne := Path.text_foldl_child_ne (isUsable_of_place? hdir).1 hbelow
  unfold Disk.place? at hdir ⊢
  split at hdir
  · cases hdir
  · rw [if_neg (by simp [hne, husable])]
    rw [steps, Directory.follow?_components] at hdir ⊢
    rw [Path.trail_resolve_foldl_child hbelow, Directory.follow?_append, hdir]
    exact Directory.follow?_names hs

theorem Under.entry?_eq (h : d.Under dir below (.file c)) (hbelow : ∀ n ∈ below, IsName n)
    (husable : (below.foldl Path.child dir).isUsable) :
    d.entry? (below.foldl Path.child dir) = some (.file c) := by
  cases hlast : below.getLast? with
  | none =>
    obtain rfl := List.getLast?_eq_none_iff.mp hlast
    exact under_nil_file.mp h
  | some n =>
    obtain ⟨lead, rfl⟩ := List.getLast?_eq_some_iff.mp hlast
    have hn : IsName n := hbelow n (by simp)
    have hask : ((lead ++ [n]).foldl Path.child dir).asksFolder = false := by
      rw [List.foldl_append]
      exact Path.asksFolder_child hn _
    rw [entry?_eq_file_iff, destination_foldl_child d dir hbelow]
    exact ⟨place?_foldl_child h.place? hbelow h.standing? husable, h.standing?, hask⟩

-- ---------------------------------------------------------------------------
-- Walking
-- ---------------------------------------------------------------------------

theorem Under.isName (hwell : d.root.WellFormed) (h : d.Under dir below s) :
    ∀ n ∈ below, IsName n := fun n hn =>
  hwell.isName h.standing? n (List.mem_append_right _ hn)

theorem filesWhere_ok (hfound : d.filesWhere shown dir = .ok found) :
    ∃ e, d.entry? dir = some e ∧
      found = (e.filesWhere shown).map fun f => f.1.foldl Path.child dir := by
  unfold Disk.filesWhere at hfound
  split at hfound
  · cases hfound
  · next c hentry =>
    cases hfound
    exact ⟨_, hentry, rfl⟩
  · next entries hentry =>
    simp only at hfound
    split at hfound
    · cases hfound
      exact ⟨_, hentry, rfl⟩
    · cases hfound

theorem exists?_of_filesWhere (hfound : d.filesWhere shown dir = .ok found) : d.exists? dir := by
  obtain ⟨e, hentry, -⟩ := filesWhere_ok hfound
  simp [exists?, hentry]

theorem under_iff_of_entry (hentry : d.entry? dir = some e) :
    d.Under dir below s ↔ e.standing? below = some s := by
  simp [Under, hentry]

theorem mem_of_filesWhere (h : d.root.WellFormed) (hfound : d.filesWhere shown dir = .ok found)
    (p : Path) : p ∈ found ↔ ∃ below c, d.Under dir below (.file c) ∧ (∀ n ∈ below, shown n) ∧
      p = below.foldl Path.child dir := by
  obtain ⟨e, hentry, rfl⟩ := filesWhere_ok hfound
  have hwell := wellFormed_of_entry h hentry
  simp only [List.mem_map, Prod.exists, Entry.mem_filesWhere hwell, under_iff_of_entry hentry]
  grind

theorem nodup_filesWhere (h : d.root.WellFormed) (hfound : d.filesWhere shown dir = .ok found) :
    (found.map d.destination).Nodup := by
  obtain ⟨e, hentry, rfl⟩ := filesWhere_ok hfound
  have hwell := wellFormed_of_entry h hentry
  have hplaces : ((e.filesWhere shown).map fun f => f.1.foldl Path.child dir).map d.destination =
      ((e.filesWhere shown).map Prod.fst).map (d.destination dir ++ ·) := by
    rw [List.map_map, List.map_map]
    refine List.map_congr_left fun f hf => ?_
    have hunder : d.Under dir f.1 (.file f.2) :=
      (under_iff_of_entry hentry).mpr ((Entry.mem_filesWhere hwell f.1).mp hf).1
    exact destination_foldl_child d dir (hunder.isName h)
  rw [hplaces]
  exact (Entry.filesWhere_nodup hwell shown).map fun _ _ => List.append_cancel_left

/-- A walk comes to an end where the paths of its folders can be followed. -/
theorem exists_filesWhere (h : d.root.WellFormed) (hdir : d.exists? dir)
    (hfolders : ∀ below, d.Under dir below .folder → (∀ n ∈ below, shown n) →
      (below.foldl Path.child dir).isUsable) : ∃ found, d.filesWhere shown dir = .ok found := by
  obtain ⟨e, hentry⟩ := Option.isSome_iff_exists.mp hdir
  rw [Disk.filesWhere, hentry]
  cases e with
  | file content => exact ⟨_, rfl⟩
  | folder entries =>
    have hwell : entries.WellFormed := wellFormed_of_entry h hentry
    have hall : (entries.foldersWhere shown).all
        fun place => (place.foldl Path.child dir).isUsable := by
      rw [List.all_eq_true]
      intro place hplace
      cases place with
      | nil => exact absurd hplace (Directory.nil_not_mem_foldersWhere entries shown)
      | cons n below =>
        obtain ⟨hs, hshown⟩ := (Directory.mem_foldersWhere hwell n below).mp hplace
        exact hfolders _ ⟨_, hentry, hs⟩ hshown
    simp only [hall]
    exact ⟨_, rfl⟩

/-- Walks of a directory on two disks meet the same of the files that `p` picks, in the same
order, if the two have the same of those. -/
theorem filesWhere_congr {d' : Disk} {p : Path → Bool} (h : d.root.WellFormed)
    (h' : d'.root.WellFormed) (hfound : d.filesWhere shown dir = .ok found)
    (hfound' : d'.filesWhere shown dir = .ok found')
    (hsame : ∀ below, p (below.foldl Path.child dir) →
      ((∃ c, d.Under dir below (.file c)) ↔ ∃ c, d'.Under dir below (.file c))) :
    found.filter p = found'.filter p := by
  obtain ⟨e, hentry, rfl⟩ := filesWhere_ok hfound
  obtain ⟨e', hentry', rfl⟩ := filesWhere_ok hfound'
  have hplaces : ((e.filesWhere shown).map Prod.fst).filter
        (fun below => p (below.foldl Path.child dir)) =
      ((e'.filesWhere shown).map Prod.fst).filter
        (fun below => p (below.foldl Path.child dir)) := by
    refine Entry.filesWhere_congr (wellFormed_of_entry h hentry)
      (wellFormed_of_entry h' hentry') fun below hp => ?_
    simpa only [under_iff_of_entry hentry, under_iff_of_entry hentry'] using hsame below hp
  have hpaths (l : List (Place × ByteArray)) :
      (l.map fun f => f.1.foldl Path.child dir).filter p =
        ((l.map Prod.fst).filter fun below => p (below.foldl Path.child dir)).map
          (·.foldl Path.child dir) := by
    simp [List.filter_map, Function.comp_def]
  exact (hpaths _).trans (hplaces ▸ (hpaths _).symm)

theorem isUsable_of_filesWhere (h : d.root.WellFormed) (hfound : d.filesWhere shown dir = .ok found)
    (hfolder : d.Under dir below .folder) (hshown : ∀ n ∈ below, shown n) :
    (below.foldl Path.child dir).isUsable := by
  cases below with
  | nil => exact (isUsable_of_place? hfolder.place?).2
  | cons n below =>
    obtain ⟨e, hentry, hs⟩ := hfolder
    rw [Disk.filesWhere, hentry] at hfound
    cases e with
    | file content => cases hs
    | folder entries =>
      simp only at hfound
      split at hfound
      · next hall =>
        rw [List.all_eq_true] at hall
        exact hall _ ((Directory.mem_foldersWhere (wellFormed_of_entry h hentry) n below).mpr
          ⟨hs, hshown⟩)
      · cases hfound

end Disk

end SceneDiagram
