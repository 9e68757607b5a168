import SceneDiagram.Proofs.CommandLine.Changes
import SceneDiagram.Proofs.Diagram.ClassSections
import SceneDiagram.Proofs.Diagram.Unfolding
import SceneDiagram.Proofs.Hierarchy.Origin
import SceneDiagram.Proofs.Hierarchy.Wiring
import SceneDiagram.Proofs.Path.Way

/-!
# Links lead to files

`links_lead`: a relative link, followed from the directory that its document is
written into, leads to the file below the project. It climbs as many directories
as the document's path has slashes, so it is back in the output directory before
it follows the base. All links of a document are made so (`cites_of_mem_blocks`).
-/

namespace SceneDiagram

open Text

-- ---------------------------------------------------------------------------
-- Following
-- ---------------------------------------------------------------------------

namespace Path

variable {lead s path : String}

def follow (place : List String) (link : String) : List String := reach place (trail ⟨link⟩)

/-- A text that stands in front of paths below `target` and leads there from `source`. -/
structure LeadsTo (cwd : List String) (source target : Path) (lead : String) : Prop where
  relative : ¬ isAbsolute ⟨lead⟩
  closed : lead = "" ∨ ∃ t, lead = t ++ "/"
  arrives : placeFrom (source.placeFrom cwd) ⟨lead⟩ = target.placeFrom cwd

theorem trail_append (h : lead = "" ∨ ∃ t, lead = t ++ "/") (s : String) :
    trail ⟨lead ++ s⟩ = trail ⟨lead⟩ ++ trail ⟨s⟩ := by
  rcases h with rfl | ⟨t, rfl⟩
  · simp
  · have ht : trail ⟨t ++ "/"⟩ = trail ⟨t⟩ := by simpa using trail_slash t ""
    rw [trail_slash, ht]

theorem not_isAbsolute_append (hlead : ¬ isAbsolute ⟨lead⟩) (hs : ¬ isAbsolute ⟨s⟩) :
    ¬ isAbsolute ⟨lead ++ s⟩ := by
  by_cases hempty : lead = ""
  · rwa [hempty, String.empty_append]
  · rwa [isAbsolute_append hempty]

theorem trail_of_names (h : ∀ piece ∈ split '/' path, IsName piece) :
    trail ⟨path⟩ = (split '/' path).map .name := by
  rw [trail, ← List.filterMap_eq_map]
  exact List.filterMap_congr fun piece hpiece => (h piece hpiece).ofPiece?

theorem not_isAbsolute_of_names (h : ∀ piece ∈ split '/' path, IsName piece) :
    ¬ isAbsolute ⟨path⟩ := by
  obtain ⟨first, rest, hsplit⟩ := List.exists_cons_of_ne_nil (split_ne_nil '/' path)
  have hfirst : first ≠ "" := (h first (by simp [hsplit])).ne_empty
  have hne : path ≠ "" := by
    rintro rfl
    exact hfirst (List.cons.inj hsplit).1.symm
  exact fun habsolute => hfirst ((isAbsolute_iff_of_split (p := ⟨path⟩) hsplit hne).mp habsolute)

end Path

-- ---------------------------------------------------------------------------
-- The text of a link
-- ---------------------------------------------------------------------------

open SceneDiagram.Path (IsName LeadsTo follow placeFrom reach trail)

namespace LinkStyle

variable {cwd : List String} {out project : Path} {base path : String}

theorem repeated_eq_walked (n : Nat) : repeated n "../" =
    join "" ((List.replicate n Path.Component.up).map (·.text ++ "/")) := by
  rw [repeated, List.map_replicate]
  rfl

theorem isInner_of_mem_replicate {c : Path.Component} (h : c ∈ List.replicate n .up) :
    c.IsInner := by
  rw [List.eq_of_mem_replicate h]
  exact .up

theorem trail_target (hbase : LeadsTo cwd out project base) (f : FileRef) :
    trail ⟨(ofDocument path base).target f⟩ =
      List.replicate ((split '/' path).length - 1) .up ++ (trail ⟨base⟩ ++ trail ⟨f.relative⟩) := by
  have hclosed := Path.walked_eq_empty_or_slash
    (List.replicate ((split '/' path).length - 1) Path.Component.up)
  rw [← repeated_eq_walked] at hclosed
  rw [ofDocument, target, String.append_assoc, Path.trail_append hclosed,
    Path.trail_append hbase.closed, repeated_eq_walked,
    Path.trail_walked fun c hc => isInner_of_mem_replicate hc]

theorem not_isAbsolute_target (hbase : LeadsTo cwd out project base) {f : FileRef}
    (hf : ¬ Path.isAbsolute ⟨f.relative⟩) :
    ¬ Path.isAbsolute ⟨(ofDocument path base).target f⟩ := by
  have hclimb := Path.not_isAbsolute_walked fun c hc =>
    isInner_of_mem_replicate (n := (split '/' path).length - 1) hc
  rw [← repeated_eq_walked] at hclimb
  rw [ofDocument, target, String.append_assoc]
  exact Path.not_isAbsolute_append hclimb (Path.not_isAbsolute_append hbase.relative hf)

theorem follow_target (hbase : LeadsTo cwd out project base)
    (hnames : ∀ piece ∈ split '/' path, IsName piece) (f : FileRef) :
    follow ((out.resolve ⟨path⟩).placeFrom cwd).dropLast ((ofDocument path base).target f) =
      follow (project.placeFrom cwd) f.relative := by
  have hfolder : ((out.resolve ⟨path⟩).placeFrom cwd).dropLast =
      out.placeFrom cwd ++ (split '/' path).dropLast := by
    rw [Path.placeFrom_resolve cwd out (Path.not_isAbsolute_of_names hnames),
      Path.placeFrom_of_not_isAbsolute _ (Path.not_isAbsolute_of_names hnames),
      Path.trail_of_names hnames, Path.reach_names,
      List.dropLast_append_of_ne_nil (split_ne_nil '/' path)]
  have hbase' : reach (out.placeFrom cwd) (trail ⟨base⟩) = project.placeFrom cwd := by
    rw [← Path.placeFrom_of_not_isAbsolute _ hbase.relative, hbase.arrives]
  calc follow ((out.resolve ⟨path⟩).placeFrom cwd).dropLast ((ofDocument path base).target f)
      = reach (reach (reach (out.placeFrom cwd ++ (split '/' path).dropLast)
          (List.replicate (split '/' path).dropLast.length .up)) (trail ⟨base⟩))
          (trail ⟨f.relative⟩) := by
        rw [follow, hfolder, trail_target hbase, Path.reach_append, Path.reach_append,
          List.length_dropLast]
    _ = follow (project.placeFrom cwd) f.relative := by
        rw [Path.reach_back, hbase', follow]

end LinkStyle

-- ---------------------------------------------------------------------------
-- The links of a document
-- ---------------------------------------------------------------------------

/-- The links of a line are among `links`. What a line that is no member's says
instead of a link is among `names`. -/
def MemberLine.Cites (links : Link → Prop) (names : String → Prop) (m : MemberLine) : Prop :=
  (∀ l, m.child = some l → links l) ∧
    ((∃ l, links l ∧ m.content = l.text) ∨ m.isPublic = false ∧ names m.content)

/-- The links of a class, a package or a relation are among `links`. -/
def Block.Cites (links : Link → Prop) (names : String → Prop) : Block → Prop
  | .classBlock c => links c.link ∧ ∀ lines ∈ c.sections, ∀ m ∈ lines, m.Cites links names
  | .package _ link _ => links link
  | .relation _ => True

theorem MemberLine.Cites.mono {m : MemberLine} (h : m.Cites links names)
    (himp : ∀ l, links l → more l) : m.Cites more names :=
  ⟨fun l hl => himp l (h.1 l hl), h.2.imp_left fun ⟨l, hl, htext⟩ => ⟨l, himp l hl, htext⟩⟩

theorem Block.Cites.mono {b : Block} (h : b.Cites links names)
    (himp : ∀ l, links l → more l) : b.Cites more names := by
  cases b with
  | classBlock c =>
    exact ⟨himp _ h.1, fun lines hlines m hm => (h.2 lines hlines m hm).mono himp⟩
  | package name link body => exact himp _ h
  | relation r => trivial

namespace Drawing

open Hierarchy

variable {w : Drawing} {n root : Node}

def LinksTo (w : Drawing) (l : Link) : Prop :=
  ∃ n ∈ w.graph.nodes, ∃ f, (f = n.file ∨ f = n.sourceFile) ∧ l.target = w.style.target f

def Names (w : Drawing) (name : String) : Prop :=
  ∃ n ∈ w.graph.nodes, n.hasChild name ∨ n.Contains name

theorem linksTo_memberLink (hn : n ∈ w.graph.nodes) (m : Member) (behind : String) :
    w.LinksTo (w.memberLink n m behind) :=
  ⟨n, hn, n.sourceFile, .inr rfl, rfl⟩

theorem linksTo_childLink (h : w.graph.find? name = some child) : w.LinksTo (w.childLink child) :=
  ⟨child, List.mem_of_find?_eq_some h, child.sourceFile, .inr rfl, rfl⟩

theorem cites_propertyLine (hn : n ∈ w.graph.nodes) (p : Member) :
    (w.propertyLine n p).Cites w.LinksTo w.Names := by
  refine ⟨fun l hl => ?_, .inl ⟨_, linksTo_memberLink hn p "", rfl⟩⟩
  obtain ⟨child, hchild, rfl⟩ := Option.map_eq_some_iff.mp hl
  obtain ⟨entry, -, hfind⟩ := Option.bind_eq_some_iff.mp hchild
  exact linksTo_childLink hfind

theorem cites_methodLine (hn : n ∈ w.graph.nodes) (m : Member) :
    (w.methodLine n m).Cites w.LinksTo w.Names := by
  refine ⟨fun l hl => ?_, .inl ⟨_, linksTo_memberLink hn m "()", rfl⟩⟩
  cases hl

theorem externalText_cases (w : Drawing) (hc : (name, edge) ∈ n.children) :
    (∃ cls p, n.backing? = some cls ∧ cls.find? .property p.name = some p ∧
      w.externalText n name edge = (w.memberLink n p "").text) ∨
      n.hasChild (w.externalText n name edge) ∨ n.Contains (w.externalText n name edge) := by
  have hchild : n.hasChild name := Graph.hasChild_iff.mpr ⟨edge, hc⟩
  unfold externalText
  simp only
  split
  · next p hp =>
    obtain ⟨label, -, hp⟩ := Option.bind_eq_some_iff.mp hp
    obtain ⟨cls, hcls, hp⟩ := Option.bind_eq_some_iff.mp hp
    obtain rfl : p.name = label := eq_of_beq (List.find?_some hp :)
    exact .inl ⟨cls, p, hcls, hp, rfl⟩
  · refine .inr ?_
    simp only [SceneNode.toList_walk]
    cases hinstance : n.sceneRoot?.bind fun root =>
        root.descendants.find? (·.typeName == name) with
    | none => exact .inl hchild
    | some d =>
      obtain ⟨root, hroot, hd⟩ := Option.bind_eq_some_iff.mp hinstance
      exact .inr ⟨root, hroot, d, List.mem_of_find?_eq_some hd, rfl⟩

theorem mem_externalLines {properties : List Member} (hm : m ∈ w.externalLines n properties) :
    ∃ name edge child, (name, edge) ∈ n.children ∧ w.graph.find? name = some child ∧
      m = { isPublic := false, content := w.externalText n name edge
            child := some (w.childLink child) } := by
  obtain ⟨⟨name, edge⟩, hc, hm⟩ := List.mem_filterMap.mp hm
  obtain ⟨child, hchild, rfl⟩ := Option.map_eq_some_iff.mp hm
  exact ⟨name, edge, child, (List.mem_filter.mp hc).1, hchild, rfl⟩

theorem cites_of_mem_externalLines (hn : n ∈ w.graph.nodes) {properties : List Member}
    (hm : m ∈ w.externalLines n properties) : m.Cites w.LinksTo w.Names := by
  obtain ⟨name, edge, child, hc, hchild, rfl⟩ := mem_externalLines hm
  refine ⟨fun l hl => ?_, ?_⟩
  · cases hl
    exact linksTo_childLink hchild
  · rcases externalText_cases w hc with ⟨-, p, -, -, htext⟩ | hname
    · exact .inl ⟨_, linksTo_memberLink hn p "", htext⟩
    · exact .inr ⟨rfl, n, hn, hname⟩

theorem cites_classBlock (hn : n ∈ w.graph.nodes) :
    (Block.classBlock (w.classBlock n)).Cites w.LinksTo w.Names := by
  refine ⟨⟨n, hn, n.sourceFile, .inr rfl, rfl⟩, fun lines hlines m hm => ?_⟩
  rcases mem_sections hlines hm with ⟨p, -, rfl⟩ | ⟨p, -, rfl⟩ | hm
  · exact cites_propertyLine hn p
  · exact cites_methodLine hn p
  · exact cites_of_mem_externalLines hn hm

theorem cites_of_mem_partsOf (hn : n ∈ w.graph.nodes) (hb : b ∈ w.partsOf n) :
    b.Cites w.LinksTo w.Names := by
  rcases List.mem_cons.mp hb with rfl | hb
  · exact cites_classBlock hn
  · split at hb
    · rcases List.mem_cons.mp hb with rfl | hb
      · exact ⟨n, hn, n.file, .inl rfl, rfl⟩
      · obtain ⟨c, e, m, -, -, rfl⟩ := mem_relations hb
        trivial
    · cases hb

theorem eq_of_mem_partsOf {c : ClassBlock} (h : .classBlock c ∈ w.partsOf n) :
    c = w.classBlock n := by
  rcases List.mem_cons.mp h with heq | h
  · exact Block.classBlock.inj heq
  · split at h
    · rcases List.mem_cons.mp h with heq | h
      · cases heq
      · obtain ⟨_, _, _, _, _, heq⟩ := mem_relations h
        cases heq
    · cases h

theorem exists_of_mem_mapM {draw : Node → Option (List Block)} (ns : List Node)
    (h : ns.mapM draw = some drawn) (hb : b ∈ partsOfAll drawn.flatten) :
    ∃ m ∈ ns, ∃ bs, draw m = some bs ∧ b ∈ partsOfAll bs := by
  induction ns generalizing drawn with
  | nil =>
    cases h
    cases hb
  | cons m ns ih =>
    simp only [List.mapM_cons, Option.bind_eq_bind, Option.bind_eq_some_iff] at h
    obtain ⟨bs, hbs, rest, hrest, h⟩ := h
    cases h
    rw [List.flatten_cons, partsOfAll_append, List.mem_append] at hb
    rcases hb with hb | hb
    · exact ⟨m, List.mem_cons_self, bs, hbs, hb⟩
    · obtain ⟨m', hm', hdrawn⟩ := ih hrest hb
      exact ⟨m', List.mem_cons_of_mem m hm', hdrawn⟩

theorem exists_of_mem_parts {bs : List Block} (hn : n ∈ w.graph.nodes)
    (h : w.blocksWithin? depth n = some bs) (hb : b ∈ partsOfAll bs) :
    ∃ m ∈ w.graph.nodes, b ∈ w.partsOf m := by
  induction depth generalizing n bs with
  | zero => cases h
  | succ depth ih =>
    rw [blocksWithin?] at h
    split at h
    · next hc =>
      simp only [Option.bind_eq_bind, Option.bind_eq_some_iff] at h
      obtain ⟨drawn, hdrawn, h⟩ := h
      cases h
      have hown : b ∈ w.partsOf n ∨ b ∈ partsOfAll drawn.flatten := by
        rw [partsOfAll_drawn] at hb
        rw [partsOf, if_pos hc]
        simp only [List.mem_cons, List.mem_append] at hb ⊢
        tauto
      rcases hown with hb | hb
      · exact ⟨n, hn, hb⟩
      · obtain ⟨m, hm, bs, hbs, hb⟩ := exists_of_mem_mapM _ hdrawn hb
        obtain ⟨entry, -, hfind⟩ := List.mem_filterMap.mp hm
        exact ih (List.mem_of_find?_eq_some hfind) hbs hb
    · cases h
      exact ⟨n, hn, List.mem_cons.mpr (.inl (List.mem_singleton.mp hb))⟩

theorem blocks_of_leaf (hn : n ∈ w.graph.nodes) (h : n.hasChildren = false) :
    w.blocks n = [.classBlock (w.classBlock n)] := by
  obtain ⟨depth, hdepth⟩ := Nat.exists_eq_succ_of_ne_zero (List.length_pos_of_mem hn).ne'
  rw [blocks, hdepth, Nat.succ_eq_add_one, blocksWithin?, h, if_neg Bool.false_ne_true,
    Option.getD_some]

/-- Whatever a document holds, however deep, is part of what is drawn for some node. -/
theorem exists_of_mem_blocks (hroot : root ∈ w.graph.nodes)
    (hb : b ∈ partsOfAll (w.blocks root)) : ∃ n ∈ w.graph.nodes, b ∈ w.partsOf n := by
  rw [blocks] at hb
  cases h : w.blocksWithin? w.graph.nodes.length root with
  | none =>
    rw [h] at hb
    cases hb
  | some bs =>
    rw [h] at hb
    exact exists_of_mem_parts hroot h hb

/-- All links of a document lead to files of nodes. -/
theorem cites_of_mem_blocks (hroot : root ∈ w.graph.nodes)
    (hb : b ∈ partsOfAll (w.blocks root)) : b.Cites w.LinksTo w.Names := by
  obtain ⟨n, hn, hb⟩ := exists_of_mem_blocks hroot hb
  exact cites_of_mem_partsOf hn hb

end Drawing

-- ---------------------------------------------------------------------------
-- Documents of scenes
-- ---------------------------------------------------------------------------

theorem FileRef.not_isAbsolute_relative (dir file : Path) :
    ¬ Path.isAbsolute ⟨(inProject dir file).relative⟩ :=
  Path.not_isAbsolute_of_isInner (isInner_of_mem_relative dir file)

theorem LinkStyle.placeFrom_target (hbase : LeadsTo cwd out project base)
    (hnames : ∀ piece ∈ split '/' path, IsName piece) (file : Path) :
    placeFrom ((out.resolve ⟨path⟩).placeFrom cwd).dropLast
        ⟨(ofDocument path base).target (.inProject project file)⟩ =
      (project.resolve ⟨(FileRef.inProject project file).relative⟩).placeFrom cwd := by
  have hfile := FileRef.not_isAbsolute_relative project file
  rw [Path.placeFrom_of_not_isAbsolute _ (not_isAbsolute_target hbase hfile), ← follow,
    follow_target hbase hnames, Path.placeFrom_resolve cwd project hfile,
    Path.placeFrom_of_not_isAbsolute _ hfile, follow]

namespace Diagram

open Hierarchy
open CommandLine (findScenes isHidden)

variable {config : DiagramConfig} {root : Node} {cwd : List String} {out project : Path}
  {base : String}

abbrev usualSuffix : String := ({} : DiagramConfig).outputSuffix

theorem isName_append_suffix (h : '/' ∉ s.toList) : IsName (s ++ usualSuffix) := by
  have hlong : 3 ≤ (s ++ usualSuffix).toList.length := by simp [usualSuffix]
  refine ⟨by simpa [usualSuffix] using h, ?_, ?_, ?_⟩ <;> intro heq <;> simp [heq] at hlong

theorem isName_of_not_isHidden (hslash : '/' ∉ s.toList) (hne : s ≠ "") (h : !isHidden s) :
    IsName s := by
  refine ⟨hslash, hne, ?_, ?_⟩ <;> rintro rfl <;> exact absurd h (by decide)

theorem isName_stem (h : IsName s) (hvisible : !isHidden s) : IsName (Path.cutExtension s).1 := by
  refine isName_of_not_isHidden (Path.noSlash_stem h.noSlash) (Path.stem_ne_empty h.ne_empty) ?_
  rcases Path.stem_cases s with heq | ⟨stem, hne, ⟨tail, htail⟩, heq⟩
  · rwa [heq]
  · rw [heq]
    simp only [isHidden, ← htail, List.head?_append_of_ne_nil _ hne, String.toList_ofList]
      at hvisible ⊢
    exact hvisible

theorem isName_of_mem_withoutExtension {p : Path}
    (h : ∀ c ∈ p.components, ∃ n, c = .name n ∧ IsName n ∧ !isHidden n) :
    ∀ c ∈ p.withoutExtension, ∃ n, c = .name n ∧ IsName n := by
  intro c hc
  unfold Path.withoutExtension at hc
  split at hc
  · next s hlast =>
    rcases List.mem_append.mp hc with hc | hc
    · obtain ⟨n, rfl, hn, -⟩ := h c (List.dropLast_subset _ hc)
      exact ⟨n, rfl, hn⟩
    · obtain ⟨n, heq, hn, hvisible⟩ := h _ (List.mem_of_getLast? hlast)
      cases heq
      have hstem := isName_stem hn hvisible
      simp only [hstem.ne_here, if_false, hstem.ofPiece?, Option.toList_some,
        List.mem_singleton] at hc
      exact ⟨_, hc, hstem⟩
  · obtain ⟨n, rfl, hn, -⟩ := h c hc
    exact ⟨n, rfl, hn⟩

theorem isName_of_mem_split_slashed {steps : List Path.Component}
    (h : ∀ c ∈ steps, ∃ n, c = .name n ∧ IsName n) :
    ∀ piece ∈ split '/' (Path.slashed steps ++ usualSuffix), IsName piece := by
  have hinner : ∀ c ∈ steps, c.IsInner := by
    intro c hc
    obtain ⟨n, rfl, hn⟩ := h c hc
    exact .name hn
  obtain ⟨lead, l, f, rest, hsplit, hsuffix, hwhole⟩ :=
    exists_split_append '/' (Path.slashed steps) usualSuffix
  rw [split_of_not_mem (by decide)] at hsuffix
  obtain ⟨rfl, rfl⟩ := List.cons.inj hsuffix
  rw [hwhole]
  intro piece hpiece
  have hl : '/' ∉ l.toList := not_mem_of_mem_split (s := Path.slashed steps) (by simp [hsplit])
  rcases List.mem_append.mp hpiece with hpiece | hpiece
  · by_cases hne : steps = []
    · subst hne
      have hlead : lead ++ [l] = [""] := hsplit.symm
      obtain ⟨rfl, -⟩ := List.append_eq_singleton_iff.mp hlead |>.resolve_right (by simp)
      cases hpiece
    · have hmem : piece ∈ steps.map Path.Component.text := by
        rw [← Path.split_slashed hinner hne, hsplit]
        exact List.mem_append_left _ hpiece
      obtain ⟨c, hc, rfl⟩ := List.mem_map.mp hmem
      obtain ⟨n, rfl, hn⟩ := h c hc
      exact hn
  · rw [List.mem_singleton.mp hpiece]
    exact isName_append_suffix hl

/-- The document of a scene that a walk finds has a path of names, beside the scene and
under the usual suffix. -/
theorem isName_of_found {disk : Disk} (h : disk.root.WellFormed)
    (hfound : findScenes disk project extension = .ok found) (hp : p ∈ found)
    (hfile : root.file = .inProject project (p.below project))
    (hflat : config.flattenOutput = false) (hsuffix : config.outputSuffix = usualSuffix) :
    ∀ piece ∈ split '/' (outputPath config root), IsName piece := by
  obtain ⟨all, hall, hscenes⟩ := bind_ok.mp hfound
  cases hscenes
  obtain ⟨below, c, hunder, hshown, rfl⟩ :=
    (Disk.mem_of_filesWhere h hall p).mp (List.mem_filter.mp hp).1
  have hbelow : ∀ n ∈ below, IsName n ∧ !isHidden n := fun n hn =>
    ⟨hunder.isName h n hn, hshown n hn⟩
  have hinner : ∀ c ∈ below.map Path.Component.name, c.IsInner := by
    intro c hc
    obtain ⟨n, hn, rfl⟩ := List.mem_map.mp hc
    exact .name (hbelow n hn).1
  have hpath : (below.foldl Path.child project).below project =
      ⟨Path.slashed (below.map .name)⟩ := by
    rw [Path.below, Path.components_foldl_child fun n hn => (hbelow n hn).1,
      Path.stepsAfter?_append, Path.slashed, Path.filterMap_shown? hinner]
  obtain ⟨lead, -, htrail⟩ :=
    FileRef.trail_eq_append_relative project ⟨Path.slashed (below.map .name)⟩
  rw [Path.trail_slashed hinner] at htrail
  rw [outputPath, hflat, if_neg Bool.false_ne_true, hsuffix, hfile, hpath]
  refine isName_of_mem_split_slashed (isName_of_mem_withoutExtension fun c hc => ?_)
  have hmem : c ∈ below.map Path.Component.name := htrail ▸ List.mem_append_right lead hc
  obtain ⟨n, hn, rfl⟩ := List.mem_map.mp hmem
  exact ⟨n, rfl, hbelow n hn⟩

/-- Relative links of the document of a root, followed from the directory that it is
written into, lead to the files below the project: as steps whatever the file, as
paths for every file of the project, and so for all links of the document. -/
theorem links_lead (hbase : LeadsTo cwd out project base)
    (hnames : ∀ piece ∈ split '/' (outputPath config root), IsName piece) :
    let here := ((out.resolve ⟨outputPath config root⟩).placeFrom cwd).dropLast
    let style := LinkStyle.ofDocument (outputPath config root) base
    (∀ f : FileRef, follow here (style.target f) = follow (project.placeFrom cwd) f.relative) ∧
    (∀ file : Path, placeFrom here ⟨style.target (.inProject project file)⟩ =
      (project.resolve ⟨(FileRef.inProject project file).relative⟩).placeFrom cwd) ∧
    ∀ (graph : Graph) (analysis : AnalysisConfig), root ∈ graph.nodes →
      (root.marker?.map (·.useAbsoluteIdeLinks)).getD config.useAbsoluteIdeLinks = false →
      ∃ blocks, (ofRoot graph ⟨config, analysis⟩ base root).text = documentText blocks ∧
        ∀ part ∈ partsOfAll blocks, part.Cites
          (fun l => ∃ n ∈ graph.nodes, ∃ f, (f = n.file ∨ f = n.sourceFile) ∧
            follow here l.target = follow (project.placeFrom cwd) f.relative)
          (fun name => ∃ n ∈ graph.nodes, n.hasChild name ∨ n.Contains name) := by
  intro here style
  have hfollow (f : FileRef) :
      follow here (style.target f) = follow (project.placeFrom cwd) f.relative :=
    LinkStyle.follow_target hbase hnames f
  refine ⟨hfollow, LinkStyle.placeFrom_target hbase hnames,
    fun graph analysis hroot hrelative => ?_⟩
  let w : Drawing := ⟨graph, linkStyle config root base, analysis.interfacePrefix⟩
  have hstyle : w.style = style := by simp [w, linkStyle, hrelative, style]
  refine ⟨w.blocks root, rfl, fun part hpart => ?_⟩
  refine (Drawing.cites_of_mem_blocks hroot hpart).mono fun l hl => ?_
  obtain ⟨n, hn, f, hf, htarget⟩ := hl
  exact ⟨n, hn, f, hf, by rw [htarget, hstyle, hfollow]⟩

def nestedRoot : Node :=
  .ofDeclarations "World" (.inProject ⟨"/game"⟩ ⟨"Levels/World/World.cs"⟩) []

theorem links_lead_nested : LeadsTo [] ⟨"/out"⟩ ⟨"/game"⟩ "../game/" ∧
    (∀ piece ∈ split '/' (outputPath {} nestedRoot), IsName piece) ∧
    outputPath {} nestedRoot = "Levels/World/World.g.puml" ∧
    placeFrom ["out", "Levels", "World"] ⟨"../../../game/Player.cs"⟩ = ["game", "Player.cs"] := by
  have hbase : LeadsTo [] ⟨"/out"⟩ ⟨"/game"⟩ "../game/" := by
    constructor
    · simp [Path.isAbsolute]
    · exact .inr ⟨"../game", rfl⟩
    · decide +kernel
  have hpath : outputPath {} nestedRoot = "Levels/World/World.g.puml" := by decide +kernel
  have hnames : ∀ piece ∈ split '/' (outputPath {} nestedRoot), IsName piece := by
    rw [hpath]
    decide +kernel
  have hhere : ((Path.resolve ⟨"/out"⟩ ⟨outputPath {} nestedRoot⟩).placeFrom []).dropLast =
      ["out", "Levels", "World"] := by
    rw [hpath]
    decide +kernel
  have htarget : (LinkStyle.ofDocument (outputPath {} nestedRoot) "../game/").target
      (.inProject ⟨"/game"⟩ ⟨"Player.cs"⟩) = "../../../game/Player.cs" := by
    rw [hpath]
    decide +kernel
  refine ⟨hbase, hnames, hpath, ?_⟩
  rw [← hhere, ← htarget, (links_lead hbase hnames).2.1 ⟨"Player.cs"⟩]
  decide +kernel

end Diagram

end SceneDiagram
