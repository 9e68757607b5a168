import SceneDiagram.Scene.Elaboration

/-!
# Lines below a header

A node section is asked for six keys, each looked up in the header first and then in
the lines. `ofSections_insertLine`: one more line changes nothing, unless it is the
first place of the section that sets one of these keys.
-/

namespace SceneDiagram

namespace Section

variable {s t : Section} {line : Property}

def nodeKeys : List String := ["name", "script", "type", "instance", "groups", "parent"]

def insertLine (s : Section) (n : Nat) (line : Property) : Section :=
  { s with properties := s.properties.take n ++ line :: s.properties.drop n }

/-- The header or one of the first `n` lines sets the key. -/
def SetBefore (s : Section) (n : Nat) (key : String) : Prop :=
  ∃ p ∈ s.attributes ++ s.properties.take n, p.key.value = key

/-- A line that is not the first to set its key is not found by any. -/
theorem find?_insertLine (h : line.key.value = key → ∃ p ∈ s.properties.take n, p.key.value = key) :
    (s.insertLine n line).properties.find? (·.key.value == key) =
      s.properties.find? (·.key.value == key) := by
  have hall : s.properties.find? (·.key.value == key) =
      (s.properties.take n ++ s.properties.drop n).find? (·.key.value == key) := by
    rw [List.take_append_drop]
  rw [hall, insertLine, List.find?_append, List.find?_append, List.find?_cons]
  by_cases hkey : line.key.value = key
  · obtain ⟨p, hp, hset⟩ := h hkey
    have hfound : ((s.properties.take n).find? (·.key.value == key)).isSome := by
      rw [List.find?_isSome]
      exact ⟨p, hp, by rw [hset]; exact BEq.rfl⟩
    obtain ⟨q, hq⟩ := Option.isSome_iff_exists.mp hfound
    rw [hq, Option.some_or, Option.some_or]
  · rw [beq_false_of_ne hkey]

theorem lookup?_insertLine (h : line.key.value = key → s.SetBefore n key) :
    (s.insertLine n line).lookup? key = s.lookup? key := by
  change (s.attribute? key <|> _) = (s.attribute? key <|> _)
  cases hheader : s.attribute? key with
  | some v => rfl
  | none =>
    rw [find?_insertLine fun hkey => ?_]
    obtain ⟨p, hp, hset⟩ := h hkey
    refine (List.mem_append.mp hp).elim (fun hp => ?_) fun hp => ⟨p, hp, hset⟩
    have hnone := List.find?_eq_none.mp (Option.map_eq_none_iff.mp hheader) p hp
    exact absurd (beq_iff_eq.mpr hset) hnone

-- ---------------------------------------------------------------------------
-- What a draft asks for
-- ---------------------------------------------------------------------------

/-- Sections with one header that set the keys of a node alike. -/
structure Alike (s t : Section) : Prop where
  tag : s.tag = t.tag
  attributes : s.attributes = t.attributes
  lookups : ∀ key ∈ nodeKeys, s.lookup? key = t.lookup? key

theorem insertLine_alike (h : line.key.value ∈ nodeKeys → s.SetBefore n line.key.value) :
    Alike (s.insertLine n line) s where
  tag := rfl
  attributes := rfl
  lookups key hkey := by
    refine lookup?_insertLine fun hline => ?_
    subst hline
    exact h hkey

namespace Alike

theorem quotedName? (h : Alike s t) (hkey : key ∈ nodeKeys) :
    s.quotedName? key = t.quotedName? key := by
  rw [Section.quotedName?, h.lookups key hkey, Section.quotedName?]

theorem resourceId? (h : Alike s t) (hkey : key ∈ nodeKeys) :
    s.resourceId? key = t.resourceId? key := by
  rw [Section.resourceId?, h.lookups key hkey, Section.resourceId?]

theorem groups (h : Alike s t) : s.groups = t.groups := by
  rw [Section.groups, h.lookups "groups" (by decide), Section.groups]

theorem attributeText? (h : Alike s t) (key : String) :
    s.attributeText? key = t.attributeText? key := by
  rw [Section.attributeText?, attribute?, h.attributes, Section.attributeText?, attribute?]

theorem attributeName? (h : Alike s t) (key : String) :
    s.attributeName? key = t.attributeName? key := by
  rw [Section.attributeName?, h.attributeText?, Section.attributeName?]

end Alike
end Section

namespace Draft

open Section (Alike)

variable {s t : Section}

theorem typeOf?_congr (d : Draft) (h : Alike s t) : d.typeOf? s = d.typeOf? t := by
  rw [typeOf?, h.resourceId? (by decide), h.quotedName? (by decide), h.resourceId? (by decide),
    typeOf?]

theorem nodeOf?_congr (d : Draft) (h : Alike s t) : d.nodeOf? s = d.nodeOf? t := by
  rw [nodeOf?, h.quotedName? (by decide), d.typeOf?_congr h, h.groups, nodeOf?]

theorem addRoot_congr (d : Draft) (h : Alike s t) (n : SceneNode) :
    d.addRoot s n = d.addRoot t n := by
  rw [addRoot, h.lookups "name" (by decide), h.tag, addRoot]

theorem addNode_congr (d : Draft) (h : Alike s t) : d.addNode s = d.addNode t := by
  rw [addNode, d.nodeOf?_congr h, h.lookups "parent" (by decide), addNode]
  simp only [d.addRoot_congr h]

theorem addResource_congr (d : Draft) (h : Alike s t) : d.addResource s = d.addResource t := by
  simp only [addResource, h.attributeText?, h.attributeName?, Section.attribute?, h.attributes,
    h.tag]

theorem add_congr (d : Draft) (h : Alike s t) : d.add s = d.add t := by
  rw [add, h.tag, d.addResource_congr h, d.addNode_congr h, add]

end Draft

-- ---------------------------------------------------------------------------
-- A line more in a file
-- ---------------------------------------------------------------------------

/-- A line that sets no key of a node, or one that its section has set before, counts
for nothing. -/
theorem Scene.ofSections_insertLine (front back : List Section)
    (h : line.key.value ∈ Section.nodeKeys → s.SetBefore n line.key.value) :
    ofSections (front ++ s.insertLine n line :: back) = ofSections (front ++ s :: back) := by
  rw [ofSections, ofSections, List.foldl_append, List.foldl_append, List.foldl_cons,
    List.foldl_cons, Draft.add_congr _ (Section.insertLine_alike h)]

def bossScene : String := "[node name=\"Boss\" type=\"Enemy\"]"

def quotedLine (key text : String) : Property :=
  ⟨⟨key, ⟨0, 0⟩⟩, ⟨.quoted .plain text, ⟨0, 0⟩⟩⟩

theorem Scene.ofSections_insertLine_boss : ∃ s, Section.readAll bossScene = .ok [s] ∧
    s.SetBefore 0 "type" ∧
    ofSections ([] ++ s.insertLine 0 (quotedLine "type" "Fire") :: []) = ofSections [s] := by
  have hkeys : (Section.readAll bossScene).toOption.map
      (·.map fun s => s.attributes.map (·.key.value)) = some [["name", "type"]] := by decide +kernel
  cases hread : Section.readAll bossScene with
  | error _ => rw [hread] at hkeys; cases hkeys
  | ok sections =>
    rw [hread] at hkeys
    obtain ⟨s, rfl, hs⟩ := List.map_eq_singleton_iff.mp (Option.some.inj hkeys)
    have hset : s.SetBefore 0 "type" := by
      have hmem : "type" ∈ s.attributes.map (·.key.value) := by rw [hs]; decide
      obtain ⟨p, hp, hkey⟩ := List.mem_map.mp hmem
      exact ⟨p, List.mem_append_left _ hp, hkey⟩
    exact ⟨s, rfl, hset, ofSections_insertLine [] [] fun _ => hset⟩

/-- A line can move a node: what has no parent in the header finds one below it. -/
theorem Scene.line_below_header_counts : ¬ ∀ source front s back n line,
    Section.readAll source = .ok (front ++ s :: back) → s.tag.value = "node" →
      line.key.value ≠ "script" →
      ofSections (front ++ s.insertLine n line :: back) = ofSections (front ++ s :: back) := by
  intro hall
  have hroots : (Section.readAll bossScene).toOption.map (·.map fun s => (s.tag.value,
      (ofSections [s]).1.root.isSome,
      (ofSections [s.insertLine 0 (quotedLine "parent" "Left")]).1.root.isSome)) =
        some [("node", true, false)] := by decide +kernel
  cases hread : Section.readAll bossScene with
  | error _ => rw [hread] at hroots; cases hroots
  | ok sections =>
    rw [hread] at hroots
    obtain ⟨s, rfl, hs⟩ := List.map_eq_singleton_iff.mp (Option.some.inj hroots)
    simp only [Prod.mk.injEq] at hs
    obtain ⟨htag, hroot, hgone⟩ := hs
    have hsame := hall bossScene [] s [] 0 (quotedLine "parent" "Left") hread htag (by decide)
    rw [List.nil_append, List.nil_append] at hsame
    rw [hsame, hroot] at hgone
    cases hgone

end SceneDiagram
