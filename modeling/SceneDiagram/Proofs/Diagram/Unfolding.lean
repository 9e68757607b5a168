import SceneDiagram.Diagram
import SceneDiagram.Proofs.Hierarchy.Way

/-!
# A document unfolds the graph from its root

`unfolds_blocks`: the drawing of a root holds, for every way down from the root,
the parts of the node that the way ends at: its class and, if it has children,
its package and its relations. So a node is drawn as often as there are ways to
it.
-/

namespace SceneDiagram

open Hierarchy

-- ---------------------------------------------------------------------------
-- Parts
-- ---------------------------------------------------------------------------

mutual

/-- A block and all blocks inside it, packages without their bodies. -/
def Block.parts : Block → List Block
  | .classBlock c => [.classBlock c]
  | .package name link body => .package name link [] :: partsOfAll body
  | .relation r => [.relation r]

def partsOfAll : List Block → List Block
  | [] => []
  | b :: bs => b.parts ++ partsOfAll bs

end

theorem partsOfAll_append (bs cs : List Block) :
    partsOfAll (bs ++ cs) = partsOfAll bs ++ partsOfAll cs := by
  induction bs with
  | nil => rfl
  | cons b bs ih => rw [List.cons_append, partsOfAll, partsOfAll, ih, List.append_assoc]

namespace Block

def isClass (name : String) : Block → Bool
  | .classBlock c => c.name == name
  | _ => false

def isPackage (name : String) : Block → Bool
  | .package packageName _ _ => packageName == name
  | _ => false

def joins (source target : String) : Block → Bool
  | .relation r => r.source == source && r.target == target
  | _ => false

end Block

def Relation.textWith (r : Relation) (arrow : String) : String :=
  r.source ++ (r.member.elim "" fun m => "::" ++ m) ++ (" " ++ arrow ++ " ") ++ r.target

/-- The long arrow is drawn to an extended child, and the short one to any other. -/
theorem Relation.text_eq_textWith (r : Relation) :
    (r.text = r.textWith "--->" ↔ r.extended) ∧ (r.text = r.textWith "-->" ↔ ¬ r.extended) := by
  have hlong : " " ++ "--->" ++ " " = " ---> " := rfl
  have hshort : " " ++ "-->" ++ " " = " --> " := rfl
  rw [Relation.text, Relation.textWith, Relation.textWith, hlong, hshort]
  cases r.extended <;> simp

def Hierarchy.Node.packageName (n : Node) : String :=
  n.name ++ if n.isScene then "Scene" else "Type"

namespace Drawing

variable {w : Drawing} {n : Node}

-- ---------------------------------------------------------------------------
-- The parts of a node
-- ---------------------------------------------------------------------------

def relations (w : Drawing) (n : Node) : List Block :=
  n.children.filterMap fun (name, edge) => w.relationTo? n name edge

def partsOf (w : Drawing) (n : Node) : List Block :=
  .classBlock (w.classBlock n) ::
    if n.hasChildren then
      .package n.packageName { target := w.style.target n.file } [] :: w.relations n
    else []

def partsAt (w : Drawing) (name : String) : List Block := (w.graph.find? name).elim [] w.partsOf

theorem partsAt_name (hg : w.graph.Proper) (hn : n ∈ w.graph.nodes) :
    w.partsAt n.name = w.partsOf n := by
  rw [partsAt, hg.find?_eq_some.mpr ⟨hn, rfl⟩, Option.elim_some]

theorem mem_relations (h : b ∈ w.relations n) : ∃ c e m, (c, e) ∈ n.children ∧
    w.graph.find? c = some m ∧
    b = .relation ⟨n.name, w.memberLabel? n c e, c, m.hasChildren⟩ := by
  simp only [relations, relationTo?, List.mem_filterMap, Option.map_eq_some_iff] at h
  obtain ⟨⟨c, e⟩, he, m, hm, rfl⟩ := h
  exact ⟨c, e, m, he, hm, rfl⟩

theorem partsOfAll_of_relations {bs : List Block} (h : ∀ b ∈ bs, ∃ r, b = .relation r) :
    partsOfAll bs = bs := by
  induction bs with
  | nil => rfl
  | cons b bs ih =>
    obtain ⟨r, rfl⟩ := h b List.mem_cons_self
    rw [partsOfAll, ih fun c hc => h c (List.mem_cons_of_mem _ hc), Block.parts,
      List.singleton_append]

theorem partsOfAll_relations : partsOfAll (w.relations n) = w.relations n := by
  refine partsOfAll_of_relations fun b hb => ?_
  obtain ⟨c, e, m, -, -, rfl⟩ := mem_relations hb
  exact ⟨_, rfl⟩

theorem partsOfAll_drawn (w : Drawing) (n : Node) (drawn : List Block) :
    partsOfAll [.classBlock (w.classBlock n), w.package n drawn] =
      .classBlock (w.classBlock n) ::
        .package n.packageName { target := w.style.target n.file } [] ::
          (partsOfAll drawn ++ w.relations n) := by
  rw [partsOfAll, partsOfAll, partsOfAll, package, Block.parts, Block.parts,
    partsOfAll_append, ← relations, partsOfAll_relations, List.append_nil]
  rfl

def drawnChildren (w : Drawing) (n : Node) : List Node :=
  n.children.filterMap fun (name, _) => w.graph.find? name

theorem mem_drawnChildren (hg : w.graph.Proper) (hm : m ∈ w.drawnChildren n) :
    m ∈ w.graph.nodes ∧ n.hasChild m.name := by
  obtain ⟨e, he, hm⟩ := List.mem_filterMap.mp hm
  obtain ⟨hm, hname⟩ := hg.find?_eq_some.mp hm
  exact ⟨hm, Graph.hasChild_iff.mpr ⟨e.2, hname ▸ he⟩⟩

theorem find?_of_mem_children (hg : w.graph.Proper) (hn : n ∈ w.graph.nodes)
    (he : e ∈ n.children) : ∃ m, w.graph.find? e.1 = some m := by
  have hc : w.graph.has e.1 := hg.registered n hn e.1 (Graph.hasChild_iff.mpr ⟨e.2, he⟩)
  exact Option.isSome_iff_exists.mp hc

theorem names_drawnChildren (hg : w.graph.Proper) (hn : n ∈ w.graph.nodes) :
    (w.drawnChildren n).map (·.name) = w.graph.next n.name := by
  rw [hg.next_name hn, drawnChildren, List.map_filterMap, ← List.filterMap_eq_map]
  refine List.filterMap_congr fun ⟨c, e⟩ he => ?_
  obtain ⟨m, hm⟩ := find?_of_mem_children hg hn he
  change (w.graph.find? c).map (·.name) = some c
  rw [hm, Option.map_some, (hg.find?_eq_some.mp hm).2]

theorem perm_partsOfAll_mapM {draw : Node → Option (List Block)} {parts : Node → List Block}
    (ns : List Node) (h : ns.mapM draw = some drawn)
    (hdraw : ∀ n ∈ ns, ∀ bs, draw n = some bs → (partsOfAll bs).Perm (parts n)) :
    (partsOfAll drawn.flatten).Perm (ns.flatMap parts) := by
  induction ns generalizing drawn with
  | nil =>
    cases h
    exact .nil
  | cons n ns ih =>
    simp only [List.mapM_cons, Option.bind_eq_bind, Option.bind_eq_some_iff] at h
    obtain ⟨bs, hbs, rest, hrest, h⟩ := h
    cases h
    rw [List.flatten_cons, partsOfAll_append, List.flatMap_cons]
    exact (hdraw n List.mem_cons_self bs hbs).append
      (ih hrest fun m hm => hdraw m (List.mem_cons_of_mem _ hm))

/-- Blocks hold the parts of the ends of all ways. -/
theorem perm_partsOfAll {bs : List Block} (hg : w.graph.Proper) (hn : n ∈ w.graph.nodes)
    (h : w.blocksWithin? depth n = some bs) :
    (partsOfAll bs).Perm ((w.graph.endsWithin depth n.name).flatMap w.partsAt) := by
  induction depth generalizing n bs with
  | zero => cases h
  | succ depth ih =>
    rw [Graph.endsWithin, List.flatMap_cons, partsAt_name hg hn, partsOf]
    rw [blocksWithin?] at h
    split at h
    · next hc =>
      simp only [Option.bind_eq_bind, Option.bind_eq_some_iff] at h
      obtain ⟨drawn, hdrawn, h⟩ := h
      cases h
      have hbelow := perm_partsOfAll_mapM (w.drawnChildren n) hdrawn fun m hm bs hbs =>
        ih (mem_drawnChildren hg hm).1 hbs
      have hends : (w.drawnChildren n).flatMap (fun m =>
          (w.graph.endsWithin depth m.name).flatMap w.partsAt) =
          ((w.graph.next n.name).flatMap (w.graph.endsWithin depth)).flatMap w.partsAt := by
        rw [← names_drawnChildren hg hn, List.flatMap_assoc, List.flatMap_map]
      rw [hends] at hbelow
      rw [if_pos hc, partsOfAll_drawn, List.cons_append, List.cons_append]
      exact ((hbelow.append_right _).trans List.perm_append_comm).cons _ |>.cons _
    · next hc =>
      cases h
      have hnext : w.graph.next n.name = [] := by
        rw [hg.next_name hn]
        simpa [Node.hasChildren] using hc
      rw [if_neg hc, hnext]
      exact .refl _

-- ---------------------------------------------------------------------------
-- No drawing runs out of depth
-- ---------------------------------------------------------------------------

theorem exists_of_mapM_none {f : α → Option β} {l : List α} (h : l.mapM f = none) :
    ∃ a ∈ l, f a = none := by
  induction l with
  | nil => cases h
  | cons a l ih =>
    cases ha : f a with
    | none => exact ⟨a, List.mem_cons_self, ha⟩
    | some b =>
      cases hl : l.mapM f with
      | none =>
        obtain ⟨c, hc, hnone⟩ := ih hl
        exact ⟨c, List.mem_cons_of_mem _ hc, hnone⟩
      | some bs => simp [List.mapM_cons, ha, hl] at h

theorem exists_way_of_none (hg : w.graph.Proper) (hn : n ∈ w.graph.nodes)
    (h : w.blocksWithin? depth n = none) :
    ∃ way c, w.graph.Way n.name way c ∧ way.length = depth + 1 := by
  induction depth generalizing n with
  | zero => exact ⟨[n.name], n.name, .here, rfl⟩
  | succ depth ih =>
    rw [blocksWithin?] at h
    split at h
    · next hc =>
      have hnone : (w.drawnChildren n).mapM (w.blocksWithin? depth) = none := by
        cases hm : (w.drawnChildren n).mapM (w.blocksWithin? depth) with
        | none => rfl
        | some drawn =>
          rw [drawnChildren] at hm
          simp [hm] at h
      obtain ⟨m, hm, hnone⟩ := exists_of_mapM_none hnone
      obtain ⟨hm, hc⟩ := mem_drawnChildren hg hm
      obtain ⟨way, c, hway, hlen⟩ := ih hm hnone
      exact ⟨n.name :: way, c, .step ⟨n, hn, rfl, hc⟩ hway, congrArg Nat.succ hlen⟩
    · cases h

/-- Without cycles every drawing is complete. -/
theorem blocksWithin?_length (hg : w.graph.Proper) (hacyclic : w.graph.Acyclic)
    (hn : n ∈ w.graph.nodes) :
    w.blocksWithin? w.graph.nodes.length n = some (w.blocks n) := by
  cases h : w.blocksWithin? w.graph.nodes.length n with
  | some bs => rw [blocks, h, Option.getD_some]
  | none =>
    obtain ⟨way, c, hway, hlen⟩ := exists_way_of_none hg hn h
    have hle := hway.length_le hg hacyclic (List.mem_map_of_mem hn)
    omega

-- ---------------------------------------------------------------------------
-- Counting parts
-- ---------------------------------------------------------------------------

theorem sum_map_eq_mul_count {f : String → Nat} {l : List String}
    (h : ∀ x ∈ l, f x = if x = c then k else 0) : (l.map f).sum = k * l.count c := by
  induction l with
  | nil => rfl
  | cons x l ih =>
    rw [List.map_cons, List.sum_cons, h x List.mem_cons_self,
      ih fun y hy => h y (List.mem_cons_of_mem _ hy), List.count_cons, Nat.mul_add, Nat.add_comm]
    by_cases hx : x = c <;> simp [hx]

/-- Parts that only the node called `c` has, `k` of them, are drawn `k` times for
each way to it. -/
theorem countP_parts {p : Block → Bool} (hg : w.graph.Proper) (hacyclic : w.graph.Acyclic)
    (hn : n ∈ w.graph.nodes)
    (hp : ∀ m ∈ w.graph.nodes, (w.partsOf m).countP p = if m.name = c then k else 0) :
    ((partsOfAll (w.blocks n)).countP p : ℕ∞) = k * w.graph.wayCount n.name c := by
  have hname : n.name ∈ w.graph.names := List.mem_map_of_mem hn
  have hat : ∀ x ∈ w.graph.endsWithin w.graph.nodes.length n.name,
      (List.countP p ∘ w.partsAt) x = if x = c then k else 0 := by
    intro x hx
    obtain ⟨m, hm, rfl⟩ := List.mem_map.mp (Graph.mem_names_of_mem_endsWithin hname hx)
    rw [Function.comp, partsAt_name hg hm, hp m hm]
  rw [(perm_partsOfAll hg hn (blocksWithin?_length hg hacyclic hn)).countP_eq,
    List.countP_flatMap, sum_map_eq_mul_count hat, hg.wayCount_eq hacyclic hname, Nat.cast_mul]

-- ---------------------------------------------------------------------------
-- The parts of one node
-- ---------------------------------------------------------------------------

theorem append_scene_ne_append_type (a b : String) : a ++ "Scene" ≠ b ++ "Type" := by
  intro h
  have hrev := congrArg (List.reverse ∘ String.toList) h
  have hscene : "Scene".toList = ['S', 'c', 'e', 'n', 'e'] := rfl
  have htype : "Type".toList = ['T', 'y', 'p', 'e'] := rfl
  simp [String.toList_append, hscene, htype] at hrev

theorem packageName_inj {m : Node} (h : m.packageName = n.packageName) : m.name = n.name := by
  unfold Node.packageName at h
  split at h <;> split at h
  · exact (String.append_left_inj _).mp h
  · exact (append_scene_ne_append_type _ _ h).elim
  · exact (append_scene_ne_append_type _ _ h.symm).elim
  · exact (String.append_left_inj _).mp h

theorem countP_partsOf (p : Block → Bool) : (w.partsOf n).countP p =
    (if p (.classBlock (w.classBlock n)) then 1 else 0) +
      if n.hasChildren then
        (if p (.package n.packageName { target := w.style.target n.file } []) then 1 else 0) +
          (w.relations n).countP p
      else 0 := by
  rw [partsOf, List.countP_cons, Nat.add_comm]
  congr 1
  split
  · rw [List.countP_cons, Nat.add_comm]
  · rfl

theorem countP_relations_eq_zero {p : Block → Bool} (hp : ∀ r, p (.relation r) = false) :
    (w.relations n).countP p = 0 := by
  rw [List.countP_eq_zero]
  intro b hb
  obtain ⟨c, e, m, -, -, rfl⟩ := mem_relations hb
  simp [hp]

theorem countP_isClass : (w.partsOf n).countP (·.isClass c) = if n.name = c then 1 else 0 := by
  rw [countP_partsOf, countP_relations_eq_zero fun _ => rfl]
  simp [Block.isClass, classBlock]

theorem countP_isPackage : (w.partsOf n).countP (·.isPackage c) =
    if n.packageName = c ∧ n.hasChildren then 1 else 0 := by
  rw [countP_partsOf, countP_relations_eq_zero fun _ => rfl]
  cases h : n.hasChildren <;> simp [Block.isPackage]

theorem countP_relations (hg : w.graph.Proper) (hn : n ∈ w.graph.nodes) :
    (w.relations n).countP (·.joins a b) = if n.name = a ∧ n.hasChild b then 1 else 0 := by
  have hjoins : ∀ x ∈ n.children, ((w.relationTo? n x.1 x.2).map (·.joins a b)).getD false =
      (n.name == a && x.1 == b) := by
    intro x hx
    obtain ⟨m, hm⟩ := find?_of_mem_children hg hn hx
    rw [relationTo?, hm]
    rfl
  have hcount : n.children.countP (·.1 == b) = if n.hasChild b then 1 else 0 := by
    have hnodup := (hg.childrenNodup n hn).count (a := b)
    rw [List.count, List.countP_map, Function.comp_def] at hnodup
    simpa only [Graph.mem_children_iff] using hnodup
  rw [relations, List.countP_filterMap, List.countP_congr fun x hx => by rw [hjoins x hx]]
  by_cases ha : n.name = a
  · simpa [ha] using hcount
  · simp [ha]

theorem countP_joins (hg : w.graph.Proper) (hn : n ∈ w.graph.nodes) :
    (w.partsOf n).countP (·.joins a b) = if n.name = a ∧ n.hasChild b then 1 else 0 := by
  rw [countP_partsOf, countP_relations hg hn]
  cases h : n.hasChildren with
  | true => simp [Block.joins]
  | false =>
    have hnone : n.hasChild b = false := by simp_all [Node.hasChildren, Node.hasChild]
    simp [Block.joins, hnone]

theorem mem_relations_of_mem_partsOf (h : .relation r ∈ w.partsOf n) :
    .relation r ∈ w.relations n := by
  rw [partsOf] at h
  split at h
  · simpa using h
  · simp at h

theorem hasChildren_iff (hg : w.graph.Proper) (h : w.graph.find? c = some n) :
    n.hasChildren ↔ ∃ d, w.graph.Child c d := by
  obtain ⟨hn, rfl⟩ := hg.find?_eq_some.mp h
  have hchild : n.hasChildren ↔ ∃ d, n.hasChild d := by
    cases hc : n.children with
    | nil => simp [Node.hasChildren, Node.hasChild, hc]
    | cons e es =>
      exact ⟨fun _ => ⟨e.1, by simp [Node.hasChild, hc]⟩, fun _ => by simp [Node.hasChildren, hc]⟩
  rw [hchild]
  constructor
  · rintro ⟨d, hd⟩
    exact ⟨d, n, hn, rfl, hd⟩
  · rintro ⟨d, m, hm, hname, hd⟩
    obtain rfl := List.inj_on_of_nodup_map hg.nodup hm hn hname
    exact ⟨d, hd⟩

-- ---------------------------------------------------------------------------
-- The theorem
-- ---------------------------------------------------------------------------

/-- The blocks unfold the graph from a root: each way down from the root draws the
parts of the node at its end. -/
structure Unfolds (graph : Graph) (root : Node) (parts : List Block) : Prop where
  /-- A class for each way to a node, so one for the root. -/
  classes : ∀ name, (parts.countP (·.isClass name) : ℕ∞) = graph.wayCount root.name name
  once : graph.wayCount root.name root.name = 1
  /-- A package for each of them if the node has children. -/
  packages : ∀ n ∈ graph.nodes, (parts.countP (·.isPackage n.packageName) : ℕ∞) =
    if n.hasChildren then graph.wayCount root.name n.name else 0
  /-- A relation for each way to the source of an edge. -/
  relations : ∀ a b, graph.Child a b →
    (parts.countP (·.joins a b) : ℕ∞) = graph.wayCount root.name a
  /-- Relations follow edges; the arrow is longer to a node that has children. -/
  arrows : ∀ r, .relation r ∈ parts → graph.Child r.source r.target ∧
    (r.extended ↔ ∃ c, graph.Child r.target c) ∧
    (r.text = r.textWith "--->" ↔ ∃ c, graph.Child r.target c) ∧
    (r.text = r.textWith "-->" ↔ ¬ ∃ c, graph.Child r.target c)

theorem unfolds_blocks (hg : w.graph.Proper) (hacyclic : w.graph.Acyclic)
    (hn : n ∈ w.graph.nodes) : Unfolds w.graph n (partsOfAll (w.blocks n)) where
  classes name := by
    rw [countP_parts hg hacyclic hn fun _ _ => countP_isClass, Nat.cast_one, one_mul]
  once := hacyclic.wayCount_self n.name
  packages m hm := by
    have hp : ∀ k ∈ w.graph.nodes, (w.partsOf k).countP (·.isPackage m.packageName) =
        if k.name = m.name then (if m.hasChildren then 1 else 0) else 0 := by
      intro k hk
      rw [countP_isPackage]
      by_cases hname : k.name = m.name
      · obtain rfl := List.inj_on_of_nodup_map hg.nodup hk hm hname
        simp
      · have hne : k.packageName ≠ m.packageName := fun h => hname (packageName_inj h)
        simp [hname, hne]
    rw [countP_parts hg hacyclic hn hp]
    split <;> simp
  relations a b hc := by
    have hp : ∀ k ∈ w.graph.nodes,
        (w.partsOf k).countP (·.joins a b) = if k.name = a then 1 else 0 := by
      obtain ⟨m, hm, rfl, hb⟩ := hc
      intro k hk
      rw [countP_joins hg hk]
      by_cases hname : k.name = m.name
      · obtain rfl := List.inj_on_of_nodup_map hg.nodup hk hm hname
        simp [hb]
      · simp [hname]
    rw [countP_parts hg hacyclic hn hp, Nat.cast_one, one_mul]
  arrows r hr := by
    have hperm := perm_partsOfAll hg hn (blocksWithin?_length hg hacyclic hn)
    obtain ⟨x, hx, hr⟩ := List.mem_flatMap.mp (hperm.mem_iff.mp hr)
    obtain ⟨m, hm, rfl⟩ := List.mem_map.mp
      (Graph.mem_names_of_mem_endsWithin (List.mem_map_of_mem hn) hx)
    rw [partsAt_name hg hm] at hr
    obtain ⟨c, e, k, hc, hk, heq⟩ := mem_relations (mem_relations_of_mem_partsOf hr)
    obtain rfl := Block.relation.inj heq
    have hextended := hasChildren_iff hg hk
    exact ⟨⟨m, hm, rfl, Graph.hasChild_iff.mpr ⟨e, hc⟩⟩, hextended,
      (Relation.text_eq_textWith _).1.trans hextended,
      (Relation.text_eq_textWith _).2.trans (not_congr hextended)⟩

theorem Unfolds.exists_class {graph : Graph} (h : Unfolds graph root parts)
    (hway : graph.Way root.name way name) :
    ∃ c : ClassBlock, c.name = name ∧ .classBlock c ∈ parts := by
  have hpos : 0 < parts.countP (·.isClass name) := by
    refine Nat.pos_of_ne_zero fun hzero => hway.wayCount_ne_zero ?_
    rw [← h.classes name, hzero, Nat.cast_zero]
  obtain ⟨b, hb, hclass⟩ := List.countP_pos_iff.mp hpos
  cases b with
  | classBlock c => exact ⟨c, eq_of_beq hclass, hb⟩
  | package => cases hclass
  | relation => cases hclass

end Drawing

end SceneDiagram
