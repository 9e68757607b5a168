import SceneDiagram.Proofs.Hierarchy.Accounts
import SceneDiagram.Proofs.Path.Trail

/-!
# Declarations of one source file

Declarations are grouped by the steps of their files, as they are spelled.
`together_ofInputs`: where each file is spelled in one way, its declarations stay together.
One group has them all, in their order, and so does the node that the group goes to; no
group loses its name to another group of its file. Two spellings of one file part its
declarations (`not_together_ofInputs`).
-/

namespace SceneDiagram

namespace Path

/-- Do two paths name one file, for a project directory seen from `cwd`? The disk is not
asked: a `..` leads to the directory around. -/
def SameFile (dir : Path) (cwd : List String) (p q : Path) : Prop :=
  (dir.resolve p).placeFrom cwd = (dir.resolve q).placeFrom cwd

instance (dir : Path) (cwd : List String) (p q : Path) : Decidable (SameFile dir cwd p q) :=
  inferInstanceAs (Decidable (_ = _))

variable {dir p q : Path} {cwd : List String}

theorem placeFrom_eq_reach_components (cwd : List String) (p : Path) :
    p.placeFrom cwd = reach (if .root ∈ p.components then [] else cwd) p.components := by
  rw [reach_components, placeFrom]
  simp only [isAbsolute_iff_mem_components]

theorem placeFrom_resolve_eq (dir : Path) (cwd : List String) (p : Path) :
    (dir.resolve p).placeFrom cwd = p.placeFrom (dir.placeFrom cwd) := by
  by_cases h : p.isAbsolute
  · rw [resolve_of_isAbsolute dir h, placeFrom_of_isAbsolute _ h, placeFrom_of_isAbsolute _ h]
  · exact placeFrom_resolve cwd dir h

theorem SameFile.of_same (h : p.same q) : SameFile dir cwd p q := by
  rw [SameFile, placeFrom_resolve_eq, placeFrom_resolve_eq, placeFrom_eq_reach_components _ p,
    placeFrom_eq_reach_components _ q, same_iff.mp h]

theorem SameFile.same_of_isPlain (h : SameFile dir cwd p q) (hp : p.IsPlain) (hq : q.IsPlain) :
    p.same q := by
  rw [SameFile, placeFrom_resolve_eq, placeFrom_resolve_eq,
    placeFrom_of_not_isAbsolute _ hp.not_isAbsolute,
    placeFrom_of_not_isAbsolute _ hq.not_isAbsolute, hp.trail_eq, hq.trail_eq] at h
  obtain ⟨names, hnames⟩ := hp
  obtain ⟨names', hnames'⟩ := hq
  rw [hnames, hnames', reach_names, reach_names] at h
  rw [same_iff, hnames, hnames', List.append_cancel_left h]

end Path

namespace Hierarchy

open SceneDiagram.Path (SameFile)

def fileDeclarations (dir : Path) (cwd : List String) (file : Path) (ds : List Declaration) :
    List Declaration :=
  ds.filter fun d => SameFile dir cwd file d.file

/-- Files are spelled with the same steps wherever they are given. -/
def SpelledOnce (dir : Path) (cwd : List String) (ds : List Declaration) : Prop :=
  ∀ d ∈ ds, ∀ e ∈ ds, SameFile dir cwd d.file e.file → d.file.same e.file

/-- Declarations of one file stay together, in their groups and in the graph. -/
structure Together (dir : Path) (cwd : List String) (scenes : List (Path × Scene))
    (ds : List Declaration) (mark : String) (r : Registry) : Prop where
  /-- A group has all declarations of its file. -/
  grouped : (∀ d ∈ ds, ∃ g ∈ Group.ofDeclarations ds, d ∈ g.declarations) ∧
    ∀ g ∈ Group.ofDeclarations ds, ∀ d ∈ g.declarations,
      g.declarations = fileDeclarations dir cwd d.file ds
  /-- So has a node that has one of them. -/
  nodes : ∀ n ∈ (r.graph mark).nodes, ∀ d ∈ n.declarations,
    n.declarations = fileDeclarations dir cwd d.file ds
  /-- No two nodes have declarations of one file. -/
  apart : ∀ n ∈ (r.graph mark).nodes, ∀ m ∈ (r.graph mark).nodes,
    ∀ d ∈ n.declarations, ∀ e ∈ m.declarations, SameFile dir cwd d.file e.file → n = m
  /-- A group loses its name to a scene or to a group of another file. -/
  lost : ∀ before k after name file, inputsOf scenes ds = before ++ .group k :: after →
    fate before (.group k) = .duplicate name file →
      (∃ scene, .scene file scene ∈ before) ∨
        ∃ g, .group g ∈ before ∧ g.file = file ∧ ¬ SameFile dir cwd g.file k.file
  /-- The warnings are about what has been lost, and about missing roots. -/
  warnings : r.warnings = (fates [] (inputsOf scenes ds)).filterMap (warningOf? dir)

variable {dir : Path} {cwd : List String} {scenes : List (Path × Scene)}
  {ds : List Declaration} {d e : Declaration} {g k : Group} {n : Node} {mark : String}

-- ---------------------------------------------------------------------------
-- Spelling
-- ---------------------------------------------------------------------------

theorem spelledOnce_of_isPlain (h : ∀ d ∈ ds, d.file.IsPlain) : SpelledOnce dir cwd ds :=
  fun d hd e he hsame => hsame.same_of_isPlain (h d hd) (h e he)

theorem SpelledOnce.fileDeclarations_eq (hspelled : SpelledOnce dir cwd ds) (hd : d ∈ ds) :
    fileDeclarations dir cwd d.file ds = Group.sharing d.file ds := by
  refine List.filter_congr fun e he => ?_
  rw [Bool.eq_iff_iff, decide_eq_true_iff]
  exact ⟨hspelled d hd e he, SameFile.of_same⟩

-- ---------------------------------------------------------------------------
-- Groups
-- ---------------------------------------------------------------------------

theorem share_group_iff (hd : d ∈ ds) (he : e ∈ ds) :
    (∃ g ∈ Group.ofDeclarations ds, d ∈ g.declarations ∧ e ∈ g.declarations) ↔
      d.file.same e.file := by
  constructor
  · rintro ⟨g, hg, hd, he⟩
    have hd := ((Group.mem_declarations hg).mp hd).2
    have he := ((Group.mem_declarations hg).mp he).2
    exact Path.same_trans (Path.same_symm hd) he
  · intro hsame
    obtain ⟨g, hg, hgd⟩ := (Group.grouped_ofDeclarations ds).covered d hd
    have hge : g.file.same e.file := Path.same_trans hgd hsame
    exact ⟨g, hg, (Group.mem_declarations hg).mpr ⟨hd, hgd⟩,
      (Group.mem_declarations hg).mpr ⟨he, hge⟩⟩

theorem exists_group_of_mem (hd : d ∈ ds) : ∃ g ∈ Group.ofDeclarations ds, d ∈ g.declarations := by
  obtain ⟨g, hg, hdg, -⟩ := (share_group_iff hd hd).mpr d.file.same_refl
  exact ⟨g, hg, hdg⟩

theorem SpelledOnce.declarations_eq (hspelled : SpelledOnce dir cwd ds)
    (hg : g ∈ Group.ofDeclarations ds) (hd : d ∈ g.declarations) :
    g.declarations = fileDeclarations dir cwd d.file ds := by
  have hwhole := (Group.grouped_ofDeclarations ds).whole g hg
  obtain ⟨hds, hsame⟩ := (Group.mem_declarations hg).mp hd
  rw [hspelled.fileDeclarations_eq hds, hwhole.all, Group.sharing_eq_of_same hsame]

theorem SpelledOnce.eq_of_sameFile (hspelled : SpelledOnce dir cwd ds)
    (hg : g ∈ Group.ofDeclarations ds) (hk : k ∈ Group.ofDeclarations ds)
    (hsame : SameFile dir cwd g.file k.file) : g = k := by
  have hgroups := Group.grouped_ofDeclarations ds
  obtain ⟨d, hd, hdfile⟩ := (hgroups.whole g hg).exists_file
  obtain ⟨e, he, hefile⟩ := (hgroups.whole k hk).exists_file
  refine hgroups.eq_of_same hg hk ?_
  rw [← hdfile, ← hefile] at hsame ⊢
  exact hspelled d hd e he hsame

theorem SpelledOnce.not_sameFile (hspelled : SpelledOnce dir cwd ds)
    (hinputs : inputsOf scenes ds = before ++ .group k :: after) (hg : .group g ∈ before) :
    ¬ SameFile dir cwd g.file k.file := by
  have hgroups := groups_inputsOf scenes ds
  rw [hinputs, List.filterMap_append, List.filterMap_cons] at hgroups
  have hbefore : g ∈ before.filterMap (·.group?) := mem_groups.mpr hg
  have hmem : g ∈ Group.ofDeclarations ds := hgroups ▸ List.mem_append_left _ hbefore
  have hk : k ∈ Group.ofDeclarations ds :=
    hgroups ▸ List.mem_append_right _ List.mem_cons_self
  intro hsame
  refine (hgroups ▸ Group.grouped_ofDeclarations ds).others (List.mem_append_left _ hbefore) ?_
  rw [hspelled.eq_of_sameFile hmem hk hsame]
  exact k.file.same_refl

theorem SpelledOnce.lost (hspelled : SpelledOnce dir cwd ds)
    (hinputs : inputsOf scenes ds = before ++ .group k :: after)
    (hfate : fate before (.group k) = .duplicate name file) :
    (∃ scene, .scene file scene ∈ before) ∨
      ∃ g, .group g ∈ before ∧ g.file = file ∧ ¬ SameFile dir cwd g.file k.file := by
  obtain ⟨-, -, kept, hkept, rfl⟩ := fate_eq_iff.mp hfate
  have hmem := List.mem_of_find?_eq_some hkept
  cases kept with
  | scene path scene => exact .inl ⟨scene, hmem⟩
  | group g => exact .inr ⟨g, hmem, rfl, hspelled.not_sameFile hinputs hmem⟩

-- ---------------------------------------------------------------------------
-- Nodes
-- ---------------------------------------------------------------------------

namespace Registry

variable {inputs : List Input} {r : Registry}

theorem Records.exists_group (h : Records dir inputs r) (hn : n ∈ (r.graph mark).nodes)
    (hd : d ∈ n.declarations) :
    ∃ g, .group g ∈ inputs ∧ g.file.nodeName? = some n.name ∧ n.declarations = g.declarations := by
  by_cases hscene : n.isScene
  · have hall := h.declarations_eq hn hscene
    cases hfirst : firstGroup? inputs n.name with
    | none =>
      rw [hall, hfirst] at hd
      cases hd
    | some g =>
      rw [hfirst] at hall
      exact ⟨g, mem_groups.mp (List.mem_of_find?_eq_some hfirst),
        eq_of_beq (List.find?_some hfirst :), hall⟩
  · obtain ⟨i, hholder, hnode⟩ := h.eq_of_mem_graph hn
    cases i with
    | scene path scene => exact absurd (h.isScene_eq hn hholder) hscene
    | group g =>
      exact ⟨g, List.mem_of_find?_eq_some hholder, Input.asks_iff.mp (List.find?_some hholder :),
        congrArg Node.declarations hnode⟩

theorem exists_group_of_mem_graph (hn : n ∈ ((ofInputs dir scenes ds).graph mark).nodes)
    (hd : d ∈ n.declarations) :
    ∃ g ∈ Group.ofDeclarations ds,
      g.file.nodeName? = some n.name ∧ n.declarations = g.declarations := by
  obtain ⟨g, hg, hname, hall⟩ := (records_ofInputs dir scenes ds).exists_group hn hd
  rw [← mem_groups, groups_inputsOf] at hg
  exact ⟨g, hg, hname, hall⟩

theorem eq_of_sameFile (hspelled : SpelledOnce dir cwd ds)
    (hn : n ∈ ((ofInputs dir scenes ds).graph mark).nodes)
    (hm : m ∈ ((ofInputs dir scenes ds).graph mark).nodes)
    (hd : d ∈ n.declarations) (he : e ∈ m.declarations) (hsame : SameFile dir cwd d.file e.file) :
    n = m := by
  obtain ⟨g, hg, hgname, hgall⟩ := exists_group_of_mem_graph hn hd
  obtain ⟨k, hk, hkname, hkall⟩ := exists_group_of_mem_graph hm he
  rw [hgall] at hd
  rw [hkall] at he
  obtain ⟨hdmem, hgd⟩ := (Group.mem_declarations hg).mp hd
  obtain ⟨hemem, hke⟩ := (Group.mem_declarations hk).mp he
  have hde := hspelled d hdmem e hemem hsame
  obtain rfl : g = k := (Group.grouped_ofDeclarations ds).eq_of_same hg hk
    (Path.same_trans hgd (Path.same_trans hde (Path.same_symm hke)))
  have hname : n.name = m.name := Option.some.inj (hgname.symm.trans hkname)
  have hnodup := (records_ofInputs dir scenes ds).nodup_names_graph mark
  exact List.inj_on_of_nodup_map hnodup hn hm hname

/-- Where each file is spelled in one way, its declarations stay together. -/
theorem together_ofInputs (dir : Path) (cwd : List String) (scenes : List (Path × Scene))
    (ds : List Declaration) (mark : String) :
    (∀ d ∈ ds, ∀ e ∈ ds, (∃ g ∈ Group.ofDeclarations ds,
      d ∈ g.declarations ∧ e ∈ g.declarations) ↔ d.file.same e.file) ∧
    (SpelledOnce dir cwd ds → Together dir cwd scenes ds mark (ofInputs dir scenes ds)) := by
  refine ⟨fun d hd e he => share_group_iff hd he, fun hspelled => ?_⟩
  exact {
    grouped := ⟨fun d hd => exists_group_of_mem hd, fun g hg d hd => hspelled.declarations_eq hg hd⟩
    nodes := fun n hn d hd => by
      obtain ⟨g, hg, -, hall⟩ := exists_group_of_mem_graph hn hd
      rw [hall] at hd ⊢
      exact hspelled.declarations_eq hg hd
    apart := fun n hn m hm d hd e he hsame => eq_of_sameFile hspelled hn hm hd he hsame
    lost := fun before k after name file hinputs hfate => hspelled.lost hinputs hfate
    warnings := (records_ofInputs dir scenes ds).warnings }

/-- A class and, in another spelling of its file or not, its interface. In between, a class
of this name from another file. -/
def gameTypes (file : Path) : List Declaration :=
  [{ name := "Game", kind := .classType, file := ⟨"Game.cs"⟩ },
    { name := "Game", kind := .classType, file := ⟨"Old/Game.cs"⟩ },
    { name := "IGame", kind := .interface, file := file }]

theorem together_ofInputs_game :
    let ds := gameTypes ⟨"Game.cs"⟩
    let r := ofInputs ⟨"/game"⟩ [] ds
    SpelledOnce ⟨"/game"⟩ [] ds ∧ Together ⟨"/game"⟩ [] [] ds "I" r ∧
      r.warnings = [.duplicateName "Game" "Game.cs" "Old/Game.cs"] := by
  intro ds r
  have hplain : ∀ d ∈ ds, d.file.IsPlain := by
    have hgame : Path.IsPlain ⟨"Game.cs"⟩ := ⟨["Game.cs"], by decide +kernel⟩
    have hold : Path.IsPlain ⟨"Old/Game.cs"⟩ := ⟨["Old", "Game.cs"], by decide +kernel⟩
    simp [ds, gameTypes, hgame, hold]
  have hspelled : SpelledOnce ⟨"/game"⟩ [] ds := spelledOnce_of_isPlain hplain
  exact ⟨hspelled, (together_ofInputs ⟨"/game"⟩ [] [] ds "I").2 hspelled, by decide +kernel⟩

theorem not_together_ofInputs : ¬ ∀ (dir : Path) (cwd : List String)
    (scenes : List (Path × Scene)) (ds : List Declaration) (mark : String),
    Together dir cwd scenes ds mark (ofInputs dir scenes ds) := by
  intro h
  have hall := (h ⟨"/game"⟩ [] [] (gameTypes ⟨"./Game.cs"⟩) "I").grouped.2
  revert hall
  decide +kernel

end Registry

end Hierarchy

end SceneDiagram
