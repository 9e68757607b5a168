import SceneDiagram.Hierarchy.Registry

/-!
# The fates of inputs

Scenes and groups of declarations ask for names, and the first to ask for a name has it.
`fate` says what becomes of an input, by the names that were asked for before it, and each
input has one fate (`fate_eq_iff`), which also says what is warned of (`warning?_eq`).
-/

namespace SceneDiagram.Hierarchy

/-- What asks for a name: a scene file, or the declarations of one source file. -/
inductive Input
  | scene (path : Path) (scene : Scene)
  | group (group : Group)

namespace Input

def name? : Input → Option String
  | scene _ s => s.root.map (·.name)
  | group g => g.file.nodeName?

def file : Input → Path
  | scene path _ => path
  | group g => g.file

def isScene : Input → Bool
  | scene _ _ => true
  | group _ => false

def asks (name : String) (i : Input) : Bool := i.name? == some name

def declarations : Input → List Declaration
  | scene _ _ => []
  | group g => g.declarations

def Filled : Input → Prop
  | scene _ _ => True
  | group g => g.declarations ≠ []

def group? : Input → Option Group
  | scene _ _ => none
  | group g => some g

def node (dir : Path) (name : String) : Input → Node
  | scene path s =>
    { name := name, origin := .scene s, file := FileRef.inProject dir path,
      script := s.script?.map fun s => FileRef.inProject dir (FileRef.resourcePath s.path) }
  | group g => .ofDeclarations name (FileRef.inProject dir g.file) g.declarations

end Input

/-- The input that has a name: the first that asks for it. -/
def holder? (inputs : List Input) (name : String) : Option Input := inputs.find? (·.asks name)

def awaited (inputs : List Input) (name : String) : Bool :=
  (holder? inputs name).any (·.isScene) && !inputs.any fun i => i.asks name && !i.isScene

inductive Fate
  /-- It has a node of its own. -/
  | registered (name : String)
  /-- The scene of its name has its declarations. -/
  | attached (name : String)
  /-- An earlier input has its name, the one from the file `kept`. -/
  | duplicate (name : String) (kept : Path)
  /-- It is a scene without a root. -/
  | rootless
  /-- It is a group from a file without a name. -/
  | skipped
  deriving DecidableEq, Repr

def fate (earlier : List Input) (i : Input) : Fate :=
  match i.name? with
  | none => if i.isScene then .rootless else .skipped
  | some name =>
    match holder? earlier name with
    | none => .registered name
    | some kept =>
      if !i.isScene && awaited earlier name then .attached name else .duplicate name kept.file

def fates (earlier : List Input) : List Input → List (Input × Fate)
  | [] => []
  | i :: rest => (i, fate earlier i) :: fates (earlier ++ [i]) rest

/-- When an input that comes after others has a fate. -/
def Input.Becomes (earlier : List Input) (i : Input) : Fate → Prop
  | .registered name => i.name? = some name ∧ holder? earlier name = none
  | .attached name => i.name? = some name ∧ ¬ i.isScene ∧ awaited earlier name
  | .duplicate name file =>
    i.name? = some name ∧ ¬ (¬ i.isScene ∧ awaited earlier name) ∧
      ∃ kept, holder? earlier name = some kept ∧ kept.file = file
  | .rootless => i.name? = none ∧ i.isScene
  | .skipped => i.name? = none ∧ ¬ i.isScene

def warning? (dir : Path) (earlier : List Input) (i : Input) : Option Warning :=
  match i.name? with
  | none => if i.isScene then some (.missingRoot i.file) else none
  | some name =>
    if !i.isScene && awaited earlier name then none
    else (holder? earlier name).map fun kept =>
      .duplicateName name (FileRef.relativeTo dir kept.file) (FileRef.relativeTo dir i.file)

def registered? (dir : Path) : Input × Fate → Option Node
  | (i, .registered name) => some (i.node dir name)
  | _ => none

def warningOf? (dir : Path) : Input × Fate → Option Warning
  | (i, .duplicate name kept) =>
    some (.duplicateName name (FileRef.relativeTo dir kept) (FileRef.relativeTo dir i.file))
  | (i, .rootless) => some (.missingRoot i.file)
  | _ => none

variable {dir : Path} {earlier inputs : List Input} {i : Input} {g : Group} {name : String}

-- ---------------------------------------------------------------------------
-- Holders
-- ---------------------------------------------------------------------------

theorem Input.asks_iff : i.asks name ↔ i.name? = some name := beq_iff_eq

theorem holder?_isSome : (holder? inputs name).isSome ↔ name ∈ inputs.filterMap (·.name?) := by
  simp [holder?, Input.asks]

theorem holder?_append (h : holder? inputs name = some kept) (later : List Input) :
    holder? (inputs ++ later) name = some kept := by
  rw [holder?, List.find?_append, ← holder?, h, Option.some_or]

theorem holder?_append_of_some (h : holder? inputs name = some kept) :
    holder? (inputs ++ [i]) name = some kept := holder?_append h [i]

theorem holder?_append_of_none (h : holder? inputs name = none) (hi : i.name? = some name) :
    holder? (inputs ++ [i]) name = some i := by
  rw [holder?, List.find?_append, ← holder?, h, Option.none_or,
    List.find?_cons_of_pos (Input.asks_iff.mpr hi)]

theorem awaited_append (h : holder? inputs name = some kept) :
    awaited (inputs ++ [i]) name = (awaited inputs name && !(i.asks name && !i.isScene)) := by
  simp [awaited, holder?_append_of_some h, h, Bool.and_assoc]

theorem awaited_append_of_none (h : holder? inputs name = none) (hi : i.name? = some name) :
    awaited (inputs ++ [i]) name = i.isScene := by
  have hnone : inputs.any (fun i => i.asks name && !i.isScene) = false := by
    rw [List.any_eq_false]
    intro k hk hasks
    exact List.find?_eq_none.mp h k hk (Bool.and_eq_true_iff.mp hasks).1
  simp [awaited, holder?_append_of_none h hi, hnone, Input.asks_iff.mpr hi]

-- ---------------------------------------------------------------------------
-- Fates
-- ---------------------------------------------------------------------------

theorem fate_of_nameless (h : i.name? = none) :
    fate earlier i = if i.isScene then .rootless else .skipped := by
  rw [fate, h]

theorem fate_of_free (h : i.name? = some name) (hfree : holder? earlier name = none) :
    fate earlier i = .registered name := by
  rw [fate, h]
  simp only [hfree]

theorem fate_of_taken (h : i.name? = some name) (hkept : holder? earlier name = some kept) :
    fate earlier i = if !i.isScene && awaited earlier name then .attached name
      else .duplicate name kept.file := by
  rw [fate, h]
  simp only [hkept]

theorem fates_append (earlier l : List Input) (i : Input) :
    fates earlier (l ++ [i]) = fates earlier l ++ [(i, fate (earlier ++ l) i)] := by
  induction l generalizing earlier with
  | nil => simp [fates]
  | cons j l ih => simp [fates, ih]

theorem map_fst_fates (earlier l : List Input) : (fates earlier l).map (·.1) = l := by
  induction l generalizing earlier with
  | nil => rfl
  | cons i l ih => rw [fates, List.map_cons, ih]

theorem mem_fates : (i, f) ∈ fates earlier inputs ↔
    ∃ before after, inputs = before ++ i :: after ∧ fate (earlier ++ before) i = f := by
  induction inputs generalizing earlier with
  | nil => simp [fates]
  | cons j inputs ih =>
    rw [fates, List.mem_cons, ih, Prod.mk.injEq]
    constructor
    · rintro (⟨rfl, rfl⟩ | ⟨before, after, rfl, rfl⟩)
      · exact ⟨[], inputs, rfl, by rw [List.append_nil]⟩
      · exact ⟨j :: before, after, rfl, by rw [List.append_assoc]; rfl⟩
    · rintro ⟨before, after, hinputs, rfl⟩
      cases before with
      | nil =>
        cases hinputs
        exact .inl ⟨rfl, by rw [List.append_nil]⟩
      | cons k before =>
        cases hinputs
        exact .inr ⟨before, after, rfl, by rw [List.append_assoc]; rfl⟩

theorem becomes_fate (earlier : List Input) (i : Input) : i.Becomes earlier (fate earlier i) := by
  cases hname : i.name? with
  | none =>
    rw [fate_of_nameless hname]
    split
    · next hscene => exact ⟨hname, hscene⟩
    · next hgroup => exact ⟨hname, hgroup⟩
  | some name =>
    cases hkept : holder? earlier name with
    | none =>
      rw [fate_of_free hname hkept]
      exact ⟨hname, hkept⟩
    | some kept =>
      rw [fate_of_taken hname hkept]
      split
      · next hwaits => exact ⟨hname, by simpa using hwaits⟩
      · next hwaits => exact ⟨hname, by simpa using hwaits, kept, hkept, rfl⟩

theorem fate_eq_iff : fate earlier i = f ↔ i.Becomes earlier f := by
  constructor
  · rintro rfl
    exact becomes_fate earlier i
  · intro h
    cases f with
    | registered name =>
      obtain ⟨hname, hfree⟩ := h
      exact fate_of_free hname hfree
    | attached name =>
      obtain ⟨hname, hgroup, hwaits⟩ := h
      have hscene := (Bool.and_eq_true_iff.mp hwaits).1
      obtain ⟨kept, hkept, -⟩ := (Option.any_eq_true _ _).mp hscene
      rw [fate_of_taken hname hkept, if_pos (by simp [hgroup, hwaits])]
    | duplicate name file =>
      obtain ⟨hname, hlost, kept, hkept, rfl⟩ := h
      rw [fate_of_taken hname hkept, if_neg (by simpa using hlost)]
    | rootless =>
      obtain ⟨hname, hscene⟩ := h
      rw [fate_of_nameless hname, if_pos hscene]
    | skipped =>
      obtain ⟨hname, hgroup⟩ := h
      rw [fate_of_nameless hname, if_neg hgroup]

theorem mem_fates_iff_becomes : (i, f) ∈ fates [] inputs ↔
    ∃ before after, inputs = before ++ i :: after ∧ i.Becomes before f := by
  simp only [mem_fates, List.nil_append, fate_eq_iff]

theorem fate_group_eq_attached : fate earlier (.group g) = .attached name ↔
    g.file.nodeName? = some name ∧ awaited earlier name :=
  fate_eq_iff.trans (and_congr_right fun _ => and_iff_right Bool.false_ne_true)

theorem warning?_eq (dir : Path) (earlier : List Input) (i : Input) :
    warning? dir earlier i = warningOf? dir (i, fate earlier i) := by
  unfold warning?
  split
  · next hname =>
    rw [fate_of_nameless hname]
    split <;> rfl
  · next name hname =>
    split
    · next hwaits =>
      have hattached : fate earlier i = .attached name :=
        fate_eq_iff.mpr ⟨hname, by simpa using hwaits⟩
      rw [hattached]
      rfl
    · next hwaits =>
      cases hkept : holder? earlier name with
      | none =>
        rw [fate_of_free hname hkept]
        rfl
      | some kept =>
        rw [fate_of_taken hname hkept, if_neg hwaits]
        rfl

theorem holder?_of_registered (h : (i, .registered name) ∈ fates [] inputs) :
    holder? inputs name = some i := by
  obtain ⟨before, after, rfl, hname, hfree⟩ := mem_fates_iff_becomes.mp h
  rw [List.append_cons]
  exact holder?_append (holder?_append_of_none hfree hname) after

namespace Input

@[simp] theorem name_node : (i.node dir name).name = name := by
  cases i <;> rfl

@[simp] theorem isScene_node : (i.node dir name).isScene = i.isScene := by
  cases i <;> rfl

@[simp] theorem file_node : (i.node dir name).file = FileRef.inProject dir i.file := by
  cases i <;> rfl

end Input

end SceneDiagram.Hierarchy
