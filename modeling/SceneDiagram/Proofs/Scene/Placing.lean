import SceneDiagram.Proofs.Section.Moving
import SceneDiagram.Scene.Elaboration

/-!
# Elaboration without regard to places

`ofSections_moved`: where the parts of a file stand counts for nothing but the labels of
the warnings. Whatever a section is asked for is the same wherever it stands, and a draft
that is moved takes in a section that is moved as it would without.
-/

namespace SceneDiagram

variable {f : Span → Span}

-- ---------------------------------------------------------------------------
-- What a section says
-- ---------------------------------------------------------------------------

@[simp] theorem Spanned.value_moved (v : Spanned Value) : (v.moved f).value = v.value.moved f := rfl

theorem Value.movedItems_eq_map (vs : List (Spanned Value)) :
    movedItems f vs = vs.map (·.moved f) := by
  induction vs with
  | nil => rw [movedItems, List.map_nil]
  | cons v vs ih => rw [Grammar.movedItems_cons, ih, List.map_cons]

@[simp] theorem Value.quotedText?_moved (v : Value) : (v.moved f).quotedText? = v.quotedText? := by
  cases v <;> simp only [moved, quotedText?]

@[simp] theorem Value.scalarText?_moved (v : Value) : (v.moved f).scalarText? = v.scalarText? := by
  cases v <;> simp only [moved, scalarText?]

@[simp] theorem Value.resourceId?_moved (v : Value) : (v.moved f).resourceId? = v.resourceId? := by
  cases v with
  | call name typeArgs args =>
    rw [moved, movedItems_eq_map, movedItems_eq_map]
    by_cases hname : name = "ExtResource"
    · cases args with
      | nil => simp [resourceId?]
      | cons id args => cases args <;> simp [hname, resourceId?]
    · simp [resourceId?, hname]
  | _ => simp only [moved, resourceId?]

theorem getD_span_moved (v : Option (Spanned Value)) (span : Span) :
    ((v.map (·.moved f)).map (·.span)).getD (f span) = f ((v.map (·.span)).getD span) := by
  cases v <;> rfl

namespace Section

@[simp] theorem attribute?_moved (s : Section) (key : String) :
    (s.moved f).attribute? key = (s.attribute? key).map (·.moved f) := by
  simp only [attribute?, Section.moved, List.find?_map, Option.map_map]
  rfl

@[simp] theorem lookup?_moved (s : Section) (key : String) :
    (s.moved f).lookup? key = (s.lookup? key).map (·.moved f) := by
  have hline : ((s.moved f).properties.find? (·.key.value == key)).map (·.value) =
      ((s.properties.find? (·.key.value == key)).map (·.value)).map (·.moved f) := by
    simp only [Section.moved, List.find?_map, Option.map_map]
    rfl
  rw [lookup?, attribute?_moved, hline, lookup?]
  cases s.attribute? key <;> rfl

@[simp] theorem attributeText?_moved (s : Section) (key : String) :
    (s.moved f).attributeText? key = s.attributeText? key := by
  simp [attributeText?, Option.bind_map, Function.comp_def]

@[simp] theorem attributeName?_moved (s : Section) (key : String) :
    (s.moved f).attributeName? key = s.attributeName? key := by
  rw [attributeName?, attributeText?_moved, attributeName?]

@[simp] theorem quotedName?_moved (s : Section) (key : String) :
    (s.moved f).quotedName? key = s.quotedName? key := by
  simp [quotedName?, Option.bind_map, Function.comp_def]

@[simp] theorem resourceId?_moved (s : Section) (key : String) :
    (s.moved f).resourceId? key = s.resourceId? key := by
  simp [resourceId?, Option.bind_map, Function.comp_def]

@[simp] theorem groups_moved (s : Section) : (s.moved f).groups = s.groups := by
  rw [groups, lookup?_moved, groups]
  rcases s.lookup? "groups" with _ | ⟨v, span⟩
  · rfl
  · cases v with
    | array items =>
      have hitems : (Value.movedItems f items).filterMap (·.value.quotedText?) =
          items.filterMap (·.value.quotedText?) := by
        rw [Value.movedItems_eq_map, List.filterMap_map]
        exact congrArg (items.filterMap ·) (funext fun v => v.value.quotedText?_moved)
      simp only [Option.map_some, Spanned.moved, Value.moved, hitems]
    | _ => simp only [Option.map_some, Spanned.moved, Value.moved]

end Section

-- ---------------------------------------------------------------------------
-- Drafts
-- ---------------------------------------------------------------------------

def Diagnostic.Label.moved (f : Span → Span) (l : Label) : Label := { l with span := f l.span }

def Diagnostic.moved (f : Span → Span) (d : Diagnostic) : Diagnostic :=
  { d with labels := d.labels.map (·.moved f) }

namespace Draft

def moved (f : Span → Span) (d : Draft) : Draft :=
  { d with
    ids := d.ids.map fun (id, span) => (id, f span)
    root := d.root.map fun (node, span) => (node, f span)
    warnings := d.warnings.map (·.moved f) }

theorem lookup_map_snd (l : List (String × α)) (g : α → β) (key : String) :
    (l.map fun (k, a) => (k, g a)).lookup key = (l.lookup key).map g := by
  induction l with
  | nil => rfl
  | cons e l ih =>
    rw [List.map_cons, List.lookup_cons, List.lookup_cons, ih]
    cases key == e.1 <;> rfl

theorem warn_moved (d : Draft) (code : Diagnostic.Code) (message : String)
    (labels : List Diagnostic.Label) (help : String) :
    (d.warn code message labels help).moved f =
      (d.moved f).warn code message (labels.map (·.moved f)) help := by
  simp [warn, moved, Diagnostic.moved]

theorem addResource_moved (d : Draft) (s : Section) :
    (d.moved f).addResource (s.moved f) = (d.addResource s).moved f := by
  have hids (id : String) : (d.moved f).ids.lookup id = (d.ids.lookup id).map f :=
    lookup_map_snd d.ids f id
  have htag : (s.moved f).tag.span = f s.tag.span := rfl
  simp only [addResource, Section.attributeText?_moved, Section.attributeName?_moved,
    Section.attribute?_moved, htag, getD_span_moved, hids]
  split
  · next id _ _ _ =>
    cases d.ids.lookup id with
    | none =>
      simp only [Option.map_none]
      split <;> simp [moved]
    | some first =>
      simp only [Option.map_some, warn_moved]
      rfl
  · rfl

theorem nodeOf?_moved (d : Draft) (s : Section) :
    (d.moved f).nodeOf? (s.moved f) = d.nodeOf? s := by
  simp only [nodeOf?, typeOf?, Section.quotedName?_moved, Section.resourceId?_moved,
    Section.groups_moved]
  rfl

theorem addRoot_moved (d : Draft) (s : Section) (node : SceneNode) :
    (d.moved f).addRoot (s.moved f) node = (d.addRoot s node).moved f := by
  have htag : (s.moved f).tag.span = f s.tag.span := rfl
  simp only [addRoot, Section.lookup?_moved, htag, getD_span_moved]
  cases hroot : d.root with
  | none => simp [moved, hroot]
  | some r => simp [moved, hroot, warn, Diagnostic.moved, Diagnostic.Label.moved]

theorem addBelow_moved (d : Draft) (node : SceneNode) (parent : Spanned Value) :
    (d.moved f).addBelow node (parent.moved f) = (d.addBelow node parent).moved f := by
  have hanchor (path : String) : (d.moved f).anchor? path = d.anchor? path := by
    simp only [anchor?, moved, Option.map_map]
    rfl
  simp only [addBelow, Spanned.value_moved, Value.quotedText?_moved, hanchor]
  split
  · rfl
  · rw [warn_moved]
    rfl

theorem add_moved (d : Draft) (s : Section) :
    (d.moved f).add (s.moved f) = (d.add s).moved f := by
  have htag : (s.moved f).tag.value = s.tag.value := rfl
  simp only [add, addNode, htag, addResource_moved, nodeOf?_moved, Section.lookup?_moved]
  split
  · rfl
  · split
    · split
      · rfl
      · cases s.lookup? "parent" with
        | none => exact addRoot_moved d s _
        | some parent => exact addBelow_moved d _ parent
    · rfl

theorem foldl_add_moved (d : Draft) (sections : List Section) :
    (sections.map (·.moved f)).foldl add (d.moved f) = (sections.foldl add d).moved f := by
  induction sections generalizing d with
  | nil => rfl
  | cons s sections ih => rw [List.map_cons, List.foldl_cons, add_moved, ih, List.foldl_cons]

theorem scene_moved (d : Draft) : (d.moved f).scene = d.scene := by
  simp only [scene, moved, Option.map_map]
  rfl

end Draft

theorem Scene.ofSections_moved (f : Span → Span) (sections : List Section) :
    ofSections (sections.map (·.moved f)) =
      ((ofSections sections).1, (ofSections sections).2.map (·.moved f)) := by
  have hempty : ({} : Draft) = ({} : Draft).moved f := rfl
  rw [ofSections, hempty, Draft.foldl_add_moved, Draft.scene_moved]
  rfl

end SceneDiagram
