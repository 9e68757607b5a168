import SceneDiagram.Proofs.Disk.Below
import SceneDiagram.Proofs.Hierarchy.Backing
import SceneDiagram.Proofs.Hierarchy.Groups
import SceneDiagram.Proofs.Project

/-!
# Links to members

`run_links_members`: what a class says of its members are links to the lines that
declare them. They go to the file of the declarations for a node of code, and for a
scene whose script is that file. The declarations of a scene are found by name alone,
though, while the links go to the script that the scene names, or to the scene itself
(`not_run_links_members`).
-/

namespace SceneDiagram

open Hierarchy

def Member.shown (m : Member) : String := m.name ++ if m.kind = .method then "()" else ""

-- ---------------------------------------------------------------------------
-- Files
-- ---------------------------------------------------------------------------

namespace Path

variable {p q : Path}

theorem trail_eq_of_same (h : p.same q) : p.trail = q.trail := by
  rw [← shownSteps_components, ← shownSteps_components, same_iff.mp h]

theorem slashPath_resolve_eq_of_same (dir : Path) (h : p.same q) :
    (dir.resolve p).slashPath = (dir.resolve q).slashPath := by
  have hcomponents := same_iff.mp h
  by_cases habsolute : p.isAbsolute
  · have habsolute' : q.isAbsolute := by rwa [isAbsolute_iff, ← hcomponents, ← isAbsolute_iff]
    rw [resolve_of_isAbsolute dir habsolute, resolve_of_isAbsolute dir habsolute', slashPath,
      slashPath, hcomponents]
  · have habsolute' : ¬ q.isAbsolute := by rwa [isAbsolute_iff, ← hcomponents, ← isAbsolute_iff]
    rw [slashPath_eq, slashPath_eq, trail_resolve dir habsolute, trail_resolve dir habsolute',
      trail_eq_of_same h]

end Path

theorem LinkStyle.target_eq_of_same (style : LinkStyle) (dir : Path) {p q : Path}
    (h : p.same q) : style.target (.inProject dir p) = style.target (.inProject dir q) := by
  cases style with
  | absolute protocol =>
    simp only [target, FileRef.inProject, Path.slashPath_resolve_eq_of_same dir h]
  | relative depth base =>
    simp only [target, FileRef.inProject, FileRef.relativeTo, Path.same_iff.mp h]

namespace Hierarchy.Node

variable {n : Node} {dir : Path} {groups : List Group} {d : Declaration}

def codedIn (n : Node) (file : Path) : Bool :=
  match n.origin with
  | .scene scene => scene.script?.any fun s => (FileRef.resourcePath s.path).same file
  | .code => true

/-- The declarations of a node are those of one group, and links to the node's code lead
to the group's file if the scene, where there is one, names it as its script. -/
theorem MadeFrom.exists_group (h : n.MadeFrom dir groups) (hd : d ∈ n.declarations) :
    ∃ g ∈ groups, g.file.nodeName? = some n.name ∧ n.declarations = g.declarations ∧
      (n.codedIn g.file → ∀ style : LinkStyle,
        style.target n.sourceFile = style.target (.inProject dir g.file)) := by
  cases h with
  | scene scene origin script declared =>
    have hne : n.declarations ≠ [] := List.ne_nil_of_mem hd
    obtain ⟨g, hg, hname, hgroup⟩ := declared.resolve_left hne
    refine ⟨g, hg, hname, hgroup, fun hcoded style => ?_⟩
    rw [codedIn, origin] at hcoded
    obtain ⟨s, hs, hsame⟩ := (Option.any_eq_true _ _).mp hcoded
    rw [sourceFile, script, hs, Option.map_some, Option.getD_some]
    exact style.target_eq_of_same dir hsame
  | code g hg _ hname hgroup file script =>
    refine ⟨g, hg, hname, hgroup, fun _ style => ?_⟩
    rw [sourceFile, script, Option.getD_some, file]

end Hierarchy.Node

-- ---------------------------------------------------------------------------
-- Classes
-- ---------------------------------------------------------------------------

variable {style : LinkStyle} {project : Project} {n : Node} {m : MemberLine}

/-- What a line in the class of a node says: the name of a child or of an instance in its
scene, or the link to a member that a group declares, at the line of the member, and in
the group's file if that is where the node's code is. -/
inductive MemberLine.Says (style : LinkStyle) (project : Project) (n : Node) (m : MemberLine) :
    Prop
  | name (hidden : m.isPublic = false) (named : n.hasChild m.content ∨ n.Contains m.content)
  | member (g : Group) (d : Declaration) (p : Member) (l : Link)
      (group : g ∈ Group.ofDeclarations project.declarations)
      (named : g.file.nodeName? = some n.name) (declared : d ∈ g.declarations)
      (file : g.file.same d.file) (mem : p ∈ d.members) (content : m.content = l.text)
      (line : l.line = p.line) (label : l.label = some p.shown)
      (target : l.target = style.target n.sourceFile)
      (source : n.codedIn g.file → l.target = style.target (.inProject project.dir g.file))

theorem Hierarchy.Node.mem_of_backing? (h : n.backing? = some d) : d ∈ n.declarations := by
  obtain ⟨i, -, hi⟩ := Option.bind_eq_some_iff.mp h
  exact List.mem_of_getElem? hi

namespace Drawing

variable {w : Drawing}

theorem says_of_content
    (hn : n.MadeFrom project.dir (Group.ofDeclarations project.declarations))
    (hcls : n.backing? = some d) (hp : p ∈ d.members)
    (h : m.content = (w.memberLink n p (if p.kind = .method then "()" else "")).text) :
    m.Says w.style project n := by
  have hd := Node.mem_of_backing? hcls
  obtain ⟨g, hg, hname, hgroup, hcoded⟩ := hn.exists_group hd
  rw [hgroup] at hd
  exact .member g d p _ hg hname hd ((Group.mem_declarations hg).mp hd).2 hp h rfl rfl rfl
    fun hc => hcoded hc w.style

theorem says_of_mem_sections
    (hn : n.MadeFrom project.dir (Group.ofDeclarations project.declarations))
    (hlines : lines ∈ (w.classBlock n).sections) (hm : m ∈ lines) : m.Says w.style project n := by
  rcases mem_sections hlines hm with ⟨p, hp, rfl⟩ | ⟨p, hp, rfl⟩ | hm
  · obtain ⟨cls, hcls, hp, hkind⟩ := mem_sharedOf hp
    exact says_of_content hn hcls hp (by rw [hkind]; rfl)
  · obtain ⟨cls, hcls, hp, hkind⟩ := mem_sharedOf hp
    exact says_of_content hn hcls hp (by rw [hkind]; rfl)
  · obtain ⟨name, edge, child, hc, -, rfl⟩ := mem_externalLines hm
    rcases externalText_cases w hc with ⟨cls, p, hcls, hp, htext⟩ | hname
    · obtain ⟨hp, hkind⟩ := List.mem_filter.mp (List.mem_of_find?_eq_some hp)
      exact says_of_content hn hcls hp (by rw [htext, eq_of_beq hkind]; rfl)
    · exact .name rfl hname

end Drawing

namespace Generation

theorem madeFrom_wired (h : register project check = .ok r) (hn : n ∈ (wired config r).nodes) :
    n.MadeFrom project.dir (Group.ofDeclarations project.declarations) := by
  have hmade : r.MadeFrom (Group.ofDeclarations project.declarations) := by
    obtain ⟨r₁, ⟨hbuilt, hscenes⟩, rfl⟩ := register_cases
      (P := fun r => r.Built ∧ r.MadeFrom []) h ⟨.empty _, nofun⟩
      (fun _ w hr => ⟨hr.1.warn w, hr.2⟩)
      fun _ path scene hr => ⟨hr.1.addScene path scene, hr.2.addScene path scene⟩
    exact hscenes.addDeclarations hbuilt.unwired _
  have hwired := hmade.wire config.analysis.interfacePrefix config.analysis hn
  rwa [dir_register h] at hwired

/-- What a class says of the members of its node are links to the lines that declare them,
in the file that declares them if that is where the node's code is. -/
theorem run_links_members (h : run config project check = .ok gen) :
    ∃ r, register project check = .ok r ∧
      gen.diagrams.map (·.text) = (drawnRoots config.diagram (wired config r)).map (fun root =>
        documentText (blocksOf config project (wired config r) root)) ∧
      ∀ root ∈ drawnRoots config.diagram (wired config r), ∀ c : ClassBlock,
        .classBlock c ∈ partsOfAll (blocksOf config project (wired config r) root) →
        ∃ n ∈ (wired config r).nodes, c.name = n.name ∧ ∀ lines ∈ c.sections, ∀ m ∈ lines,
          m.Says (Diagram.linkStyle config.diagram root (Path.wayTo project.target project.dir))
            project n := by
  obtain ⟨r, hr, -, rfl⟩ := run_ok h
  refine ⟨r, hr, by simp [draw, Diagram.ofRoot, blocksOf, Function.comp_def],
    fun root hroot c hc => ?_⟩
  obtain ⟨n, hn, hpart⟩ := Drawing.exists_of_mem_blocks (mem_drawnRoots hroot) hc
  obtain rfl := Drawing.eq_of_mem_partsOf hpart
  exact ⟨n, hn, rfl, fun lines hlines m hm =>
    Drawing.says_of_mem_sections (madeFrom_wired hr hn) hlines hm⟩

/-- The line links to a member of a declaration in the file that declares it. -/
def Located (project : Project) (style : LinkStyle) (m : MemberLine) : Prop :=
  ∃ d ∈ project.declarations, ∃ p ∈ d.members, m.content = Link.text
    { target := style.target (.inProject project.dir d.file), line := p.line, label := some p.shown }

def jump (line : Nat) : Member := { kind := .method, name := "Jump", line := some line }

def jumpClass : Declaration :=
  { name := "Player", kind := .classType, file := ⟨"Player.cs"⟩, members := [jump 12] }

def jumpInterface : Declaration :=
  { name := "IPlayer", kind := .interface, file := ⟨"Player.cs"⟩, members := [jump 4] }

def scriptedProject : Project where
  dir := ⟨"/game"⟩
  scenes := [⟨⟨"Player.tscn"⟩,
    "[ext_resource type=\"Script\" path=\"res://Player.cs\" id=\"1\"]\n" ++
    "[node name=\"Player\"]\nscript=ExtResource(\"1\")\n"⟩]
  declarations := [jumpClass, jumpInterface,
    { name := "Tools", kind := .classType, file := ⟨"Tools/Tools.cs"⟩
      members := [{ kind := .property, name := "Owner", typeName := "Player", line := some 3 }] }]

theorem run_links_members_scripted : ∃ gen r, run {} scriptedProject (.ok ()) = .ok gen ∧
    register scriptedProject (.ok ()) = .ok r ∧
    (wired {} r).nodes.map (fun n => (n.name, n.isScene)) = [("Player", true), ("Tools", false)] ∧
    ∀ root ∈ drawnRoots {} (wired {} r), ∀ c : ClassBlock,
      .classBlock c ∈ partsOfAll (blocksOf {} scriptedProject (wired {} r) root) →
      ∀ lines ∈ c.sections, ∀ m ∈ lines, m.isPublic →
        Located scriptedProject (Diagram.linkStyle {} root "") m := by
  have hfacts : (register scriptedProject (.ok ())).toOption.map (fun r =>
      ((wired {} r).cycle?, (wired {} r).nodes.map (fun n => (n.name, n.isScene)),
        (wired {} r).nodes.all fun n =>
          (Group.ofDeclarations scriptedProject.declarations).all fun g =>
            g.file.nodeName? != some n.name || n.codedIn g.file)) =
      some (none, [("Player", true), ("Tools", false)], true) := by decide +kernel
  have hway : Path.wayTo scriptedProject.target scriptedProject.dir = "" := by decide +kernel
  obtain ⟨r, hr, hfacts⟩ := toOption_map_eq_some.mp hfacts
  simp only [Prod.mk.injEq] at hfacts
  obtain ⟨hcycle, hnodes, hcoded⟩ := hfacts
  have hrun := run_of_registered hr hcycle
  obtain ⟨r', hr', -, hlines⟩ := run_links_members hrun
  obtain rfl : r = r' := Except.ok.inj (hr.symm.trans hr')
  refine ⟨_, r, hrun, hr, hnodes, fun root hroot c hc lines hl m hm hpublic => ?_⟩
  obtain ⟨n, hn, -, hsays⟩ := hlines root hroot c hc
  rw [hway] at hsays
  cases hsays lines hl m hm with
  | name hidden => simp [hpublic] at hidden
  | member g d p l hg hname hd hfile hp hcontent hline hlabel htarget hsource =>
    have hcode : n.codedIn g.file := by
      have hnode := List.all_eq_true.mp (List.all_eq_true.mp hcoded n hn) g hg
      simpa [hname] using hnode
    obtain ⟨target, line, label⟩ := l
    simp only at hline hlabel hsource
    refine ⟨d, ((Group.mem_declarations hg).mp hd).1, p, hp, ?_⟩
    rw [hcontent, hline, hlabel, hsource hcode]
    exact congrArg (fun t => Link.text ⟨t, p.line, some p.shown⟩)
      (LinkStyle.target_eq_of_same _ _ hfile)

def unscriptedProject : Project where
  dir := ⟨"/game"⟩
  scenes := [⟨⟨"Player.tscn"⟩, "[node name=\"Player\" type=\"Node\"]\n"⟩]
  declarations := [jumpClass, jumpInterface]

theorem not_located_in_scene
    (h : m.content = Link.text ⟨"Player.tscn", some 12, some "Jump()"⟩)
    (hsource : style.target (.inProject ⟨"/game"⟩ ⟨"Player.cs"⟩) = "Player.cs") :
    ¬ Located unscriptedProject style m := by
  rintro ⟨d, hd, p, hp, hcontent⟩
  have hmembers : ∀ d ∈ unscriptedProject.declarations, ∀ p ∈ d.members,
      d.file = ⟨"Player.cs"⟩ ∧ (p = jump 12 ∨ p = jump 4) := by decide
  obtain ⟨hfile, hp⟩ := hmembers d hd p hp
  rw [h, hfile, show unscriptedProject.dir = ⟨"/game"⟩ from rfl, hsource] at hcontent
  rcases hp with rfl | rfl
  · exact absurd hcontent (by decide +kernel)
  · exact absurd hcontent (by decide +kernel)

theorem not_run_links_members : ¬ ∀ (config : Config) (project : Project)
    (check : Except Failure Unit) (gen : Generation), run config project check = .ok gen →
    ∃ r, register project check = .ok r ∧
      ∀ root ∈ drawnRoots config.diagram (wired config r), ∀ c : ClassBlock,
        .classBlock c ∈ partsOfAll (blocksOf config project (wired config r) root) →
        ∀ lines ∈ c.sections, ∀ m ∈ lines, m.isPublic →
          Located project
            (Diagram.linkStyle config.diagram root (Path.wayTo project.target project.dir)) m := by
  intro h
  have hfacts : (register unscriptedProject (.ok ())).toOption.map (fun r =>
      ((wired {} r).cycle?, (drawnRoots {} (wired {} r)).map fun n =>
        decide (n.backing? = some jumpClass ∧ n.interface? = some jumpInterface ∧
          n.hasChildren = false ∧
          (Diagram.linkStyle {} n "").target n.sourceFile = "Player.tscn" ∧
          (Diagram.linkStyle {} n "").target (.inProject ⟨"/game"⟩ ⟨"Player.cs"⟩) =
            "Player.cs"))) = some (none, [true]) := by decide +kernel
  have hway : Path.wayTo unscriptedProject.target unscriptedProject.dir = "" := by decide +kernel
  obtain ⟨r, hr, hfacts⟩ := toOption_map_eq_some.mp hfacts
  obtain ⟨hcycle, hroots⟩ := Prod.mk.inj hfacts
  obtain ⟨root, hroots, hfacts⟩ := List.map_eq_singleton_iff.mp hroots
  obtain ⟨hcls, hiface, hleaf, hscene, hsource⟩ := of_decide_eq_true hfacts
  obtain ⟨r', hr', hlocated⟩ := h {} unscriptedProject (.ok ()) _ (run_of_registered hr hcycle)
  obtain rfl : r = r' := Except.ok.inj (hr.symm.trans hr')
  have hroot : root ∈ drawnRoots {} (wired {} r) := by simp [hroots]
  let w : Drawing := ⟨wired {} r, Diagram.linkStyle {} root "", "I"⟩
  have hblock : .classBlock (w.classBlock root) ∈
      partsOfAll (blocksOf {} unscriptedProject (wired {} r) root) := by
    rw [blocksOf, hway, Drawing.blocks_of_leaf (mem_drawnRoots hroot) hleaf]
    exact List.mem_singleton_self _
  have hjump : jump 12 ∈ Drawing.sharedOf .method root := by
    rw [Drawing.sharedOf_eq hcls hiface, Drawing.mem_shared]
    decide
  have hlines : (Drawing.sharedOf .method root).map (w.methodLine root) ∈
      (w.classBlock root).sections := by
    simp [Drawing.sections_classBlock, hcls, hiface]
  have hsays : (w.methodLine root (jump 12)).content =
      Link.text ⟨"Player.tscn", some 12, some "Jump()"⟩ := by
    rw [Drawing.methodLine, Drawing.memberLink, hscene]
    rfl
  have hthere := hlocated root hroot _ hblock _ hlines _ (List.mem_map_of_mem hjump) rfl
  rw [hway] at hthere
  exact not_located_in_scene hsays hsource hthere

end Generation

end SceneDiagram
