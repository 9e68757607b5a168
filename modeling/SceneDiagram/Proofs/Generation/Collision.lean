import SceneDiagram.Proofs.Generation
import SceneDiagram.Proofs.Hierarchy.Groups

/-!
# The loser of a collision

`run_without_loser`: an input that did not get the name it asked for could as well
not be there. Registering it only warns, and no step of a pass reads the warnings, so
the passes with and without it keep the same nodes from there on.
-/

namespace SceneDiagram

open Hierarchy

namespace Hierarchy.Registry

variable {about : List Warning} {r r' : Registry}

/-- Two registries that differ in nothing but warnings of the first, `about` an input
that the second has not met. -/
structure Beside (about : List Warning) (r r' : Registry) : Prop where
  dir : r.dir = r'.dir
  nodes : r.nodes = r'.nodes
  warnings : ∃ early late, r.warnings = early ++ about ++ late ∧ r'.warnings = early ++ late

theorem Beside.of_warnings (hdir : r.dir = r'.dir) (hnodes : r.nodes = r'.nodes)
    (h : r.warnings = r'.warnings ++ about) : Beside about r r' :=
  ⟨hdir, hnodes, r'.warnings, [], by simp [h], by simp⟩

theorem Beside.find?_eq (h : Beside about r r') (name : String) : r.find? name = r'.find? name := by
  rw [find?, find?, h.nodes]

theorem Beside.warn (h : Beside about r r') (w : Warning) :
    Beside about (r.warn w) (r'.warn w) := by
  obtain ⟨early, late, hr, hr'⟩ := h.warnings
  exact ⟨h.dir, h.nodes, early, late ++ [w], by simp [Registry.warn, hr],
    by simp [Registry.warn, hr']⟩

theorem Beside.insert (h : Beside about r r') (n : Node) :
    Beside about (r.insert n) (r'.insert n) := by
  rw [Registry.insert, Registry.insert, h.find?_eq]
  cases r'.find? n.name with
  | some kept => exact h.warn _
  | none => exact ⟨h.dir, by rw [h.nodes], h.warnings⟩

theorem Beside.addScene (h : Beside about r r') (path : Path) (scene : Scene) :
    Beside about (r.addScene path scene) (r'.addScene path scene) := by
  simp only [Registry.addScene, h.dir]
  split
  · exact h.insert _
  · exact h.warn _

theorem Beside.addGroup (h : Beside about r r') (g : Group) :
    Beside about (r.addGroup g) (r'.addGroup g) := by
  simp only [Registry.addGroup, h.find?_eq, h.dir]
  split
  · exact h
  · split
    · exact ⟨rfl, by rw [h.nodes], h.warnings⟩
    · exact h.insert _

theorem Beside.addGroups (h : Beside about r r') (gs : List Group) :
    Beside about (gs.foldl Registry.addGroup r) (gs.foldl Registry.addGroup r') := by
  induction gs generalizing r r' with
  | nil => exact h
  | cons g gs ih => exact ih (h.addGroup g)

theorem Beside.warnAll (h : Beside about r r') (f : α → Warning) (l : List α) :
    Beside about (l.foldl (fun r a => r.warn (f a)) r) (l.foldl (fun r a => r.warn (f a)) r') := by
  induction l generalizing r r' with
  | nil => exact h
  | cons a l ih => exact ih (h.warn (f a))

theorem foldl_warn (f : α → Warning) (l : List α) (r : Registry) :
    l.foldl (fun r a => r.warn (f a)) r = { r with warnings := r.warnings ++ l.map f } := by
  induction l generalizing r with
  | nil => simp
  | cons a l ih => rw [List.foldl_cons, ih, Registry.warn, List.map_cons, List.append_assoc,
    List.singleton_append]

theorem insert_of_taken {n kept : Node} (h : r.find? n.name = some kept) :
    r.insert n = r.warn (.duplicateName n.name kept.file.relative n.file.relative) := by
  rw [Registry.insert, h]

end Hierarchy.Registry

namespace Generation

-- ---------------------------------------------------------------------------
-- Losing
-- ---------------------------------------------------------------------------

/-- The project loses an input that lost its name to an earlier one, and with it the
warnings about that input. -/
inductive Loses (project : Project) : Project → List Warning → Prop
  /-- An earlier scene has the name of the root. -/
  | scene : project.scenes = before ++ loser :: after →
      before.foldlM addSource { dir := project.dir } = .ok r →
      Scene.read loser.text = .ok (scene, diagnostics) → scene.root = some root →
      r.find? root.name = some kept →
      Loses project { project with scenes := before ++ after }
        (diagnostics.map (.scene loser.path loser.text) ++
          [.duplicateName root.name kept.file.relative (FileRef.relativeTo project.dir loser.path)])
  /-- An earlier file, or a scene that has its declarations, has the name of the file. -/
  | group : project.scenes.foldlM addSource { dir := project.dir } = .ok r →
      Group.ofDeclarations project.declarations = before ++ loser :: after →
      loser.file.nodeName? = some name →
      (before.foldl Registry.addGroup r).find? name = some kept →
      ¬ Registry.awaitsDeclarations kept →
      Loses project
        { project with declarations := project.declarations.filter (!loser.file.same ·.file) }
        [.duplicateName name kept.file.relative (FileRef.relativeTo project.dir loser.file)]

open Registry (Beside)

variable {about : List Warning} {r r' : Registry} {project project' : Project}

-- ---------------------------------------------------------------------------
-- Two passes side by side
-- ---------------------------------------------------------------------------

theorem beside_addSource (h : Beside about r r') (source : SceneSource) :
    Agree Eq (Beside about) (addSource r source) (addSource r' source) := by
  unfold addSource
  cases Scene.read source.text with
  | error cause => exact .error rfl
  | ok read => exact .ok ((h.warnAll _ _).addScene _ _)

theorem run_error (config : Config) (project : Project) (e : Failure) :
    run config project (.error e) = .error e := by
  unfold run register
  cases project.scenes with
  | nil => rfl
  | cons source sources => rfl

theorem register_eq (project : Project) : register project (.ok ()) =
    project.scenes.foldlM addSource { dir := project.dir } >>= fun r =>
      .ok ((Group.ofDeclarations project.declarations).foldl Registry.addGroup r) := rfl

theorem run_of_beside (config : Config) (check : Except Failure Unit)
    (hdir : project.dir = project'.dir) (htarget : project.target = project'.target)
    (h : Agree Eq (Beside about) (register project (.ok ())) (register project' (.ok ()))) :
    Agree Eq (fun gen gen' => gen.diagrams = gen'.diagrams ∧
        ∃ early late, gen.warnings = early ++ about ++ late ∧ gen'.warnings = early ++ late)
      (run config project check) (run config project' check) := by
  cases check with
  | error e =>
    rw [run_error, run_error]
    exact .error rfl
  | ok _ =>
    refine h.bind fun r r' h => ?_
    have hgraph : r.graph config.analysis.interfacePrefix =
        r'.graph config.analysis.interfacePrefix := by
      rw [Registry.graph, Registry.graph, h.nodes]
    simp only [hgraph, draw, hdir, htarget, bind, Except.bind]
    split
    · exact .error rfl
    · exact .ok ⟨rfl, h.warnings⟩

theorem dir_addSource (h : addSource r source = .ok r') : r'.dir = r.dir := by
  unfold addSource at h
  split at h
  · cases h
  · cases h
    rw [Registry.dir_addScene, Registry.foldl_warn]

theorem dir_addSources {sources : List SceneSource} (h : sources.foldlM addSource r = .ok r') :
    r'.dir = r.dir := by
  induction sources generalizing r with
  | nil =>
    cases h
    rfl
  | cons source sources ih =>
    rw [List.foldlM_cons, bind_ok] at h
    obtain ⟨r₁, h₁, h⟩ := h
    rw [ih h, dir_addSource h₁]

theorem addSource_of_taken (hread : Scene.read source.text = .ok (scene, diagnostics))
    (hroot : scene.root = some root) (htaken : r.find? root.name = some kept) :
    addSource r source = .ok { r with warnings := r.warnings ++
      (diagnostics.map (.scene source.path source.text) ++
        [.duplicateName root.name kept.file.relative (FileRef.relativeTo r.dir source.path)]) } := by
  rw [addSource, hread]
  simp only [Registry.foldl_warn, Registry.addScene, Node.ofScene?, hroot, Option.map_some]
  rw [Registry.insert_of_taken htaken, Registry.warn, List.append_assoc]
  rfl

theorem addGroup_of_taken {g : Group} (hname : g.file.nodeName? = some name)
    (htaken : r.find? name = some kept) (hkept : ¬ Registry.awaitsDeclarations kept) :
    r.addGroup g =
      r.warn (.duplicateName name kept.file.relative (FileRef.relativeTo r.dir g.file)) := by
  rw [Registry.addGroup, hname]
  simp only [htaken, Option.any_some, hkept]
  exact Registry.insert_of_taken htaken

theorem Loses.beside (h : Loses project project' about) :
    Agree Eq (Beside about) (register project (.ok ())) (register project' (.ok ())) := by
  rw [register_eq, register_eq]
  cases h with
  | scene hscenes hbefore hread hroot htaken =>
    refine Agree.bind (R := Beside _) ?_ fun r r' h => .ok (h.addGroups _)
    rw [hscenes, List.foldlM_append, List.foldlM_append, hbefore]
    have hdir := dir_addSources hbefore
    change Agree Eq _ (List.foldlM addSource _ (_ :: _)) (List.foldlM addSource _ _)
    rw [List.foldlM_cons, addSource_of_taken hread hroot htaken, hdir]
    exact Agree.foldlM (.of_warnings hdir.symm rfl rfl) _ fun _ _ source h =>
      beside_addSource h source
  | @group r before loser after _ _ hscenes hgroups hname htaken hkept =>
    have hdir : (before.foldl Registry.addGroup r).dir = project.dir := by
      rw [Registry.dir_addGroups, dir_addSources hscenes]
    have hloser := addGroup_of_taken hname htaken hkept
    rw [hdir] at hloser
    simp only [hscenes, hgroups, Group.ofDeclarations_without hgroups, bind, Except.bind,
      List.foldl_append, List.foldl_cons, hloser]
    refine .ok (Beside.addGroups ?_ after)
    exact .of_warnings rfl rfl rfl

/-- Without an input that lost its name a pass draws the same documents, or fails in
the same way, and misses the warnings about that input only. -/
theorem run_without_loser (h : Loses project project' about) (config : Config)
    (check : Except Failure Unit) :
    Agree Eq (fun gen gen' => gen.diagrams = gen'.diagrams ∧
        ∃ early late, gen.warnings = early ++ about ++ late ∧ gen'.warnings = early ++ late)
      (run config project check) (run config project' check) := by
  have hsame : project.dir = project'.dir ∧ project.target = project'.target := by
    cases h <;> exact ⟨rfl, rfl⟩
  exact run_of_beside config check hsame.1 hsame.2 h.beside

def level : Declaration := { name := "Level", kind := .classType, file := ⟨"/p/a/Level.cs"⟩ }

def otherLevel : Declaration := { name := "Other", kind := .classType, file := ⟨"/p/b/Level.cs"⟩ }

theorem run_without_loser_level :
    let about := [Warning.duplicateName "Level" "a/Level.cs" "b/Level.cs"]
    let two : Project := { dir := ⟨"/p"⟩, declarations := [level, otherLevel] }
    let one : Project := { dir := ⟨"/p"⟩, declarations := [level] }
    Loses two one about ∧
      Agree Eq (fun gen gen' => gen.diagrams = gen'.diagrams ∧
          ∃ early late, gen.warnings = early ++ about ++ late ∧ gen'.warnings = early ++ late)
        (run {} two (.ok ())) (run {} one (.ok ())) := by
  intro about two one
  have hname : level.file.nodeName? = some "Level" := by decide +kernel
  have hother : otherLevel.file.nodeName? = some "Level" := by decide +kernel
  have hgroups : Group.ofDeclarations two.declarations =
      [⟨level.file, [level]⟩] ++ ⟨otherLevel.file, [otherLevel]⟩ :: [] := by decide +kernel
  have htaken : ([⟨level.file, [level]⟩].foldl Registry.addGroup { dir := two.dir }).find? "Level" =
      some (.ofDeclarations "Level" (FileRef.inProject two.dir level.file) [level]) := by
    simp [Registry.addGroup, hname, Registry.find?, Registry.insert, Node.ofDeclarations]
  have hone : two.declarations.filter (!otherLevel.file.same ·.file) = one.declarations := by
    decide +kernel
  have hkept : (FileRef.inProject two.dir level.file).relative = "a/Level.cs" := by decide +kernel
  have hlost : FileRef.relativeTo two.dir otherLevel.file = "b/Level.cs" := by decide +kernel
  have h : Loses two one about := by
    have hloses := Loses.group (r := { dir := two.dir }) rfl hgroups hother htaken (by decide)
    rw [hone, hlost, Node.ofDeclarations, hkept] at hloses
    exact hloses
  exact ⟨h, run_without_loser h {} (.ok ())⟩

end Generation

end SceneDiagram
