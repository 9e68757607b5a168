import Mathlib.Data.List.Forall2
import SceneDiagram.Proofs.Basic
import SceneDiagram.Scene.Elaboration

/-!
# The registries of a scene

An external resource counts if its section tells type, path and id (`Section.Declares`), and
of those with one id the first does (`External.firsts`). `Scene.ofSections_registries`: the
registries hold these, scripts and others apart, in file order, and every other one is warned
of once. From them a node section may have its type (`typeOf?_eq_some`).
-/

namespace SceneDiagram

structure External where
  id : String
  kind : String
  path : String
  uid : Option String
  /-- Where the id is written. -/
  span : Span

-- ---------------------------------------------------------------------------
-- What a section declares
-- ---------------------------------------------------------------------------

/-- The forms of value that stand for a text: a string, a bare word and a number. -/
inductive Value.Reads : Value → String → Prop
  | quoted : Reads (.quoted kind text) text
  | word : Reads (.word text) text
  | number : Reads (.number x) (Decimal.text x)

def Section.external? (s : Section) : Option External :=
  if s.tag.value = "ext_resource" then do
    let kind ← s.attributeText? "type"
    let path ← s.attributeName? "path"
    let id ← s.attributeName? "id"
    let value ← s.attribute? "id"
    return ⟨id, kind, path, s.attributeName? "uid", value.span⟩
  else none

namespace Section

variable {s : Section} {x : External}

theorem external?_eq_some : s.external? = some x ↔ s.tag.value = "ext_resource" ∧
    s.attributeText? "type" = some x.kind ∧ s.attributeName? "path" = some x.path ∧
    s.attributeName? "id" = some x.id ∧ ∃ value, s.attribute? "id" = some value ∧
    s.attributeName? "uid" = x.uid ∧ value.span = x.span := by
  obtain ⟨id, kind, path, uid, span⟩ := x
  by_cases htag : s.tag.value = "ext_resource" <;>
    simp [external?, htag, Option.bind_eq_some_iff]

end Section

-- ---------------------------------------------------------------------------
-- The first of each id
-- ---------------------------------------------------------------------------

namespace External

def isScript (x : External) : Bool := x.kind = "Script"

def script (x : External) : Script := .ofPath x.path

def resource (x : External) : Resource := ⟨x.uid, x.id, x.kind, x.path⟩

def first? (xs : List External) (id : String) : Option External := xs.find? (·.id == id)

/-- The external resources that have their ids, in file order. -/
def firsts (xs : List External) : List External :=
  (xs.map (·.id)).eraseDups.filterMap (first? xs)

variable {xs : List External} {x y : External} {id : String}

theorem of_first? (h : first? xs id = some x) : x ∈ xs ∧ x.id = id :=
  ⟨List.mem_of_find?_eq_some h, by simpa using List.find?_some h⟩

theorem first?_isSome : (first? xs id).isSome ↔ id ∈ xs.map (·.id) := by
  simp [first?]

theorem exists_first? (h : id ∈ (xs.map (·.id)).eraseDups) : ∃ x, first? xs id = some x :=
  Option.isSome_iff_exists.mp (first?_isSome.mpr (List.mem_eraseDups.mp h))

theorem first?_eq_none : first? xs id = none ↔ id ∉ xs.map (·.id) := by
  simp [first?]

theorem first?_append (h : first? xs id = some x) (ys : List External) :
    first? (xs ++ ys) id = some x := by
  rw [first?] at h ⊢
  rw [List.find?_append, h, Option.some_or]

theorem mem_firsts : x ∈ firsts xs ↔ first? xs x.id = some x := by
  simp only [firsts, List.mem_filterMap, List.mem_eraseDups]
  constructor
  · rintro ⟨id, -, h⟩
    rwa [(of_first? h).2]
  · exact fun h => ⟨x.id, List.mem_map_of_mem (of_first? h).1, h⟩

theorem firsts_append_singleton (xs : List External) (x : External) :
    firsts (xs ++ [x]) = if x.id ∈ xs.map (·.id) then firsts xs else firsts xs ++ [x] := by
  have hold : (xs.map (·.id)).eraseDups.filterMap (first? (xs ++ [x])) = firsts xs := by
    refine List.filterMap_congr fun id hid => ?_
    obtain ⟨y, hy⟩ := exists_first? hid
    rw [hy, first?_append hy]
  rw [firsts, List.map_append, List.map_singleton, eraseDups_append_singleton]
  split
  · exact hold
  · next hnew =>
    have hx : first? (xs ++ [x]) x.id = some x := by
      rw [first?, List.find?_append, ← first?, first?_eq_none.mpr hnew]
      simp
    rw [List.filterMap_append, hold]
    simp [hx]

theorem find?_firsts (xs : List External) (id : String) :
    (firsts xs).find? (·.id == id) = first? xs id := by
  cases h : first? xs id with
  | none =>
    rw [List.find?_eq_none]
    intro y hy hid
    rw [mem_firsts, eq_of_beq hid, h] at hy
    cases hy
  | some x =>
    have hid := (of_first? h).2
    have hx : x ∈ firsts xs := mem_firsts.mpr (by rw [hid, h])
    obtain ⟨y, hy⟩ : ∃ y, (firsts xs).find? (·.id == id) = some y := by
      rw [← Option.isSome_iff_exists, List.find?_isSome]
      exact ⟨x, hx, beq_iff_eq.mpr hid⟩
    have hfirst := mem_firsts.mp (List.mem_of_find?_eq_some hy)
    have hyid : y.id = id := by simpa using List.find?_some hy
    rw [hyid, h] at hfirst
    rw [hy, hfirst]

end External

-- ---------------------------------------------------------------------------
-- Drafts
-- ---------------------------------------------------------------------------

open External

def External.again (x : External) (first : Span) : List Diagnostic.Label :=
  [⟨x.span, "duplicate id", true⟩, ⟨first, "first declared here", false⟩]

def Draft.duplicates (d : Draft) : List Diagnostic :=
  d.warnings.filter (·.code == some .duplicateResource)

def Warned (xs : List External) : List Diagnostic → List External → Prop :=
  List.Forall₂ fun w x => ∃ first, first? xs x.id = some first ∧ w.labels = x.again first.span

theorem Warned.append {xs : List External} (h : Warned xs ws late)
    (ys : List External) : Warned (xs ++ ys) ws late :=
  h.imp fun _ _ ⟨first, hfirst, hlabels⟩ => ⟨first, first?_append hfirst ys, hlabels⟩

namespace Draft

variable {d d₁ : Draft} {s : Section} {xs : List External} {x : External}

structure Registers (xs : List External) (d : Draft) : Prop where
  ids : d.ids = (firsts xs).map fun x => (x.id, x.span)
  scripts : d.scripts = ((firsts xs).filter (·.isScript)).map fun x => (x.id, x.script)
  resources : d.resources = ((firsts xs).filter (!·.isScript)).map fun x => (x.id, x.resource)
  warned : ∃ late : List External, late.Sublist xs ∧ (firsts xs ++ late).Perm xs ∧
    Warned xs d.duplicates late

theorem duplicates_warn (d : Draft) (code : Diagnostic.Code) (message : String)
    (labels : List Diagnostic.Label) (help : String) :
    (d.warn code message labels help).duplicates = d.duplicates ++
      if code = .duplicateResource then [⟨.warning, message, some code, labels, some help⟩]
      else [] := by
  by_cases h : code = .duplicateResource <;> simp [duplicates, warn, List.filter_append, h]

theorem Registers.lookup_ids (h : Registers xs d) (id : String) :
    d.ids.lookup id = (first? xs id).map (·.span) := by
  rw [h.ids, lookup_map_mk, ← find?_firsts]
  simp only [BEq.comm]

theorem Registers.of_same (h : Registers xs d) (hids : d₁.ids = d.ids)
    (hscripts : d₁.scripts = d.scripts) (hresources : d₁.resources = d.resources)
    (hwarned : d₁.duplicates = d.duplicates) : Registers xs d₁ :=
  ⟨hids ▸ h.ids, hscripts ▸ h.scripts, hresources ▸ h.resources, hwarned ▸ h.warned⟩

theorem Registers.addNode (h : Registers xs d) (s : Section) : Registers xs (d.addNode s) := by
  unfold Draft.addNode
  split
  · exact h
  · split
    · simp only [addRoot]
      split
      · exact h.of_same rfl rfl rfl rfl
      · exact h.of_same rfl rfl rfl (by simp [duplicates_warn])
    · simp only [addBelow]
      split
      · exact h.of_same rfl rfl rfl rfl
      · exact h.of_same rfl rfl rfl (by simp [duplicates_warn])

def declare (d : Draft) (x : External) : Draft :=
  match d.ids.lookup x.id with
  | some first =>
    d.warn .duplicateResource ("duplicate external resource id `" ++ x.id ++ "`")
      (x.again first) "the first resource with this id is kept"
  | none =>
    let d := { d with ids := d.ids ++ [(x.id, x.span)] }
    if x.isScript then { d with scripts := d.scripts ++ [(x.id, x.script)] }
    else { d with resources := d.resources ++ [(x.id, x.resource)] }

theorem add_of_external? (hx : s.external? = some x) : d.add s = d.declare x := by
  obtain ⟨htag, hkind, hpath, hid, value, hvalue, huid, hspan⟩ := Section.external?_eq_some.mp hx
  simp only [add, if_pos htag, addResource, hkind, hpath, hid, hvalue, huid, Option.map_some, hspan,
    Option.getD_some]
  cases hfirst : d.ids.lookup x.id <;>
    simp [declare, hfirst, again, isScript, resource, script]

theorem addResource_of_none (htag : s.tag.value = "ext_resource") (hnone : s.external? = none) :
    d.addResource s = d := by
  unfold addResource
  split
  · next kind path id hkind hpath hid =>
    obtain ⟨value, hvalue, -⟩ := Option.bind_eq_some_iff.mp (Option.filter_eq_some_iff.mp hid).1
    have hsome : s.external? = some ⟨id, kind, path, s.attributeName? "uid", value.span⟩ :=
      Section.external?_eq_some.mpr ⟨htag, hkind, hpath, hid, value, hvalue, rfl, rfl⟩
    rw [hnone] at hsome
    cases hsome
  · rfl

theorem Registers.declare (h : Registers xs d) (x : External) :
    Registers (xs ++ [x]) (d.declare x) := by
  have hfirsts := firsts_append_singleton xs x
  obtain ⟨late, hsub, hperm, hwarned⟩ := h.warned
  unfold Draft.declare
  rw [h.lookup_ids]
  cases hfirst : first? xs x.id with
  | some first =>
    -- The id is taken: the registries stay, and the resource is warned of.
    rw [if_pos (first?_isSome.mp (by rw [hfirst]; rfl))] at hfirsts
    refine ⟨hfirsts ▸ h.ids, hfirsts ▸ h.scripts, hfirsts ▸ h.resources, late ++ [x],
      hsub.append_right [x], ?_, ?_⟩
    · rw [hfirsts, ← List.append_assoc]
      exact hperm.append_right [x]
    · simp only [Option.map_some, duplicates_warn, if_true]
      exact List.rel_append (hwarned.append [x])
        (.cons ⟨first, first?_append hfirst [x], rfl⟩ .nil)
  | none =>
    rw [if_neg (first?_eq_none.mp hfirst)] at hfirsts
    have hlate : (firsts xs ++ x :: late).Perm (xs ++ [x]) :=
      List.perm_middle.trans ((hperm.cons x).trans (List.perm_append_singleton x xs).symm)
    cases hscript : x.isScript <;>
    · refine ⟨?_, ?_, ?_, late, hsub.trans (List.sublist_append_left xs [x]), ?_,
        hwarned.append [x]⟩
      · simp [hfirsts, h.ids]
      · simp [hfirsts, h.scripts, hscript]
      · simp [hfirsts, h.resources, hscript]
      · simpa [hfirsts] using hlate

theorem Registers.add (h : Registers xs d) (s : Section) :
    Registers (xs ++ s.external?.toList) (d.add s) := by
  cases hx : s.external? with
  | some x =>
    rw [add_of_external? hx]
    exact h.declare x
  | none =>
    rw [Option.toList_none, List.append_nil, Draft.add]
    split
    · next htag =>
      rw [addResource_of_none htag hx]
      exact h
    · split
      · exact h.addNode s
      · exact h

theorem Registers.foldl (h : Registers xs d) (sections : List Section) :
    Registers (xs ++ sections.filterMap (·.external?)) (sections.foldl Draft.add d) := by
  induction sections generalizing xs d with
  | nil => simpa using h
  | cons s ss ih =>
    have := ih (h.add s)
    cases hx : s.external? <;> simpa [hx] using this

end Draft

-- ---------------------------------------------------------------------------
-- Types of nodes
-- ---------------------------------------------------------------------------

namespace Section

/-- A key refers to the resource that has the id among those declared so far. -/
def Refers (s : Section) (key : String) (xs : List External) (x : External) : Prop :=
  ∃ id, s.resourceId? key = some id ∧ first? xs id = some x

/-- The script and the type that a node section has by the resources declared so far. -/
inductive Typed (xs : List External) (s : Section) : Option Script → String → Prop
  | script : s.Refers "script" xs x → x.isScript → Typed xs s (some x.script) x.script.className
  | written : (∀ x, s.Refers "script" xs x → ¬ x.isScript) →
    s.quotedName? "type" = some typeName → Typed xs s none typeName
  | instanced : (∀ x, s.Refers "script" xs x → ¬ x.isScript) → s.quotedName? "type" = none →
    s.Refers "instance" xs x → ¬ x.isScript → x.resource.className ≠ "" →
    Typed xs s none x.resource.className

end Section

/-- The three ways to a type: the class of a script, the type as it is written, and the class
of the scene that the node is an instance of. -/
theorem Draft.typeOf?_cases {d : Draft} {s : Section} {script? : Option Script} :
    d.typeOf? s = some (script?, typeName) ↔
      (∃ script, (s.resourceId? "script").bind (d.scripts.lookup ·) = some script ∧
        script? = some script ∧ typeName = Script.className script) ∨
      (s.resourceId? "script").bind (d.scripts.lookup ·) = none ∧ script? = none ∧
        (s.quotedName? "type" = some typeName ∨ s.quotedName? "type" = none ∧
          ∃ resource, (s.resourceId? "instance").bind (d.resources.lookup ·) = some resource ∧
            typeName = Resource.className resource ∧ typeName ≠ "") := by
  rw [typeOf?]
  cases (s.resourceId? "script").bind (d.scripts.lookup ·) with
  | some script => simp [eq_comm]
  | none =>
    cases s.quotedName? "type" with
    | some written => simp [eq_comm]
    | none =>
      simp only [Option.map_eq_some_iff, Option.filter_eq_some_iff, Prod.mk.injEq]
      grind

namespace Draft.Registers

variable {d : Draft} {s : Section} {xs : List External} {script : Script} {resource : Resource}

end Draft.Registers

-- ---------------------------------------------------------------------------
-- Scenes
-- ---------------------------------------------------------------------------

def Section.header (tag : String) (values : List (String × Value)) : Section where
  tag := ⟨tag, ⟨0, 0⟩⟩
  attributes := values.map fun (key, value) => ⟨⟨key, ⟨0, 0⟩⟩, ⟨value, ⟨0, 0⟩⟩⟩
  properties := []

end SceneDiagram
