import SceneDiagram.Proofs.Diagram.Unfolding
import SceneDiagram.Proofs.Hierarchy.Cycle
import SceneDiagram.Proofs.Hierarchy.Rewiring

/-!
# Drawing comes to an end

A node is drawn around the drawings of its children, so drawing goes as deep as ways down
lead. `Draws` is that rule without a bound on the depth, and `draws_iff` says that the
drawing with a bound follows it. `drawing_ends`: on a wired graph that passes the cycle
check every drawing ends, no more than all nodes deep; on a cycle none does.
-/

open Relation (TransGen)

namespace SceneDiagram

open Hierarchy

namespace Drawing

-- ---------------------------------------------------------------------------
-- Drawing without a bound
-- ---------------------------------------------------------------------------

/-- What is drawn for a node. The drawings of its children have to be there first. -/
inductive Draws (w : Drawing) : Node → List Block → Prop
  | alone (h : ¬ n.hasChildren) : Draws w n [.classBlock (w.classBlock n)]
  | around (h : n.hasChildren) (drawn : Node → List Block)
      (below : ∀ m ∈ w.drawnChildren n, Draws w m (drawn m)) :
    Draws w n [.classBlock (w.classBlock n), w.package n ((w.drawnChildren n).flatMap drawn)]

variable {w : Drawing} {n m : Node} {bs : List Block}

theorem Draws.eq (h : w.Draws n bs) (h' : w.Draws n bs') : bs = bs' := by
  induction h generalizing bs' with
  | alone hleaf =>
    cases h' with
    | alone _ => rfl
    | around h _ _ => exact absurd h hleaf
  | around hchildren drawn _ ih =>
    cases h' with
    | alone hleaf => exact absurd hchildren hleaf
    | around _ drawn' below' =>
      have hsame : List.flatMap drawn (w.drawnChildren _) =
          List.flatMap drawn' (w.drawnChildren _) :=
        List.flatMap_congr fun m hm => ih m hm (below' m hm)
      rw [hsame]

theorem blocksWithin?_of_leaf (h : ¬ n.hasChildren) (depth : Nat) :
    w.blocksWithin? (depth + 1) n = some [.classBlock (w.classBlock n)] := by
  rw [blocksWithin?, if_neg h]

theorem blocksWithin?_of_children (h : n.hasChildren) (depth : Nat) :
    w.blocksWithin? (depth + 1) n =
      ((w.drawnChildren n).mapM (w.blocksWithin? depth)).map fun drawn =>
        [.classBlock (w.classBlock n), w.package n drawn.flatten] := by
  rw [blocksWithin?, if_pos h]
  exact Option.map_eq_bind.symm

theorem mapM_eq_some {f : α → Option (List β)} {l : List α} (h : l.mapM f = some bss) :
    (∀ a ∈ l, f a = some ((f a).getD [])) ∧ bss.flatten = l.flatMap fun a => (f a).getD [] := by
  induction l generalizing bss with
  | nil =>
    cases h
    exact ⟨nofun, rfl⟩
  | cons a l ih =>
    simp only [List.mapM_cons, Option.bind_eq_bind, Option.bind_eq_some_iff] at h
    obtain ⟨bs, hbs, rest, hrest, h⟩ := h
    cases h
    obtain ⟨hall, hflat⟩ := ih hrest
    refine ⟨List.forall_mem_cons.mpr ⟨by rw [hbs]; rfl, hall⟩, ?_⟩
    rw [List.flatten_cons, List.flatMap_cons, hflat, hbs]
    rfl

theorem mapM_of_forall {f : α → Option β} {g : α → β} {l : List α}
    (h : ∀ a ∈ l, f a = some (g a)) : l.mapM f = some (l.map g) := by
  induction l with
  | nil => rfl
  | cons a l ih =>
    obtain ⟨hfirst, hrest⟩ := List.forall_mem_cons.mp h
    rw [List.mapM_cons, hfirst, ih hrest]
    rfl

theorem draws_of_blocksWithin? (h : w.blocksWithin? depth n = some bs) : w.Draws n bs := by
  induction depth generalizing n bs with
  | zero => cases h
  | succ depth ih =>
    by_cases hc : n.hasChildren
    · rw [blocksWithin?_of_children hc] at h
      obtain ⟨bss, hbss, rfl⟩ := Option.map_eq_some_iff.mp h
      obtain ⟨hall, hflat⟩ := mapM_eq_some hbss
      rw [hflat]
      exact .around hc _ fun m hm => ih (hall m hm)
    · rw [blocksWithin?_of_leaf hc] at h
      cases h
      exact .alone hc

theorem blocksWithin?_succ (h : w.blocksWithin? depth n = some bs) :
    w.blocksWithin? (depth + 1) n = some bs := by
  induction depth generalizing n bs with
  | zero => cases h
  | succ depth ih =>
    by_cases hc : n.hasChildren
    · rw [blocksWithin?_of_children hc] at h ⊢
      obtain ⟨bss, hbss, rfl⟩ := Option.map_eq_some_iff.mp h
      obtain ⟨hall, hflat⟩ := mapM_eq_some hbss
      rw [mapM_of_forall fun m hm => ih (hall m hm), Option.map_some, hflat, List.flatMap]
    · rwa [blocksWithin?_of_leaf hc] at h ⊢

theorem blocksWithin?_mono (h : w.blocksWithin? depth n = some bs) (hle : depth ≤ bound) :
    w.blocksWithin? bound n = some bs := by
  induction hle with
  | refl => exact h
  | step _ ih => exact blocksWithin?_succ ih

theorem exists_bound {drawn : Node → List Block} (ns : List Node)
    (h : ∀ m ∈ ns, ∃ depth, w.blocksWithin? depth m = some (drawn m)) :
    ∃ bound, ∀ m ∈ ns, w.blocksWithin? bound m = some (drawn m) := by
  induction ns with
  | nil => exact ⟨0, nofun⟩
  | cons n ns ih =>
    obtain ⟨⟨depth, hdepth⟩, hrest⟩ := List.forall_mem_cons.mp h
    obtain ⟨bound, hbound⟩ := ih hrest
    refine ⟨max depth bound, List.forall_mem_cons.mpr ⟨?_, fun m hm => ?_⟩⟩
    · exact blocksWithin?_mono hdepth (Nat.le_max_left _ _)
    · exact blocksWithin?_mono (hbound m hm) (Nat.le_max_right _ _)

theorem exists_blocksWithin? (h : w.Draws n bs) : ∃ depth, w.blocksWithin? depth n = some bs := by
  induction h with
  | alone hleaf => exact ⟨1, blocksWithin?_of_leaf hleaf 0⟩
  | around hchildren drawn _ ih =>
    obtain ⟨bound, hbound⟩ := exists_bound _ ih
    refine ⟨bound + 1, ?_⟩
    rw [blocksWithin?_of_children hchildren, mapM_of_forall hbound, Option.map_some, List.flatMap]

/-- A node is drawn exactly if some bound is enough to draw it. -/
theorem draws_iff : w.Draws n bs ↔ ∃ depth, w.blocksWithin? depth n = some bs :=
  ⟨exists_blocksWithin?, fun ⟨_, h⟩ => draws_of_blocksWithin? h⟩

-- ---------------------------------------------------------------------------
-- How deep drawings nest
-- ---------------------------------------------------------------------------

/-- Drawing `n` draws `m` inside. -/
def Nests (w : Drawing) (n m : Node) : Prop := m ∈ w.drawnChildren n

theorem exists_way_of_isChain {chain : List Node} (hg : w.graph.Proper) (hn : n ∈ w.graph.nodes)
    (h : (n :: chain).IsChain w.Nests) :
    ∃ c, w.graph.Way n.name ((n :: chain).map (·.name)) c := by
  induction chain generalizing n with
  | nil => exact ⟨n.name, .here⟩
  | cons m chain ih =>
    obtain ⟨hnests, hchain⟩ := List.isChain_cons_cons.mp h
    obtain ⟨hm, hc⟩ := mem_drawnChildren hg hnests
    obtain ⟨c, hway⟩ := ih hm hchain
    exact ⟨c, .step ⟨n, hn, rfl, hc⟩ hway⟩

theorem length_le_of_isChain {chain : List Node} (hg : w.graph.Proper)
    (hacyclic : w.graph.Acyclic) (hn : n ∈ w.graph.nodes) (h : (n :: chain).IsChain w.Nests) :
    (n :: chain).length ≤ w.graph.nodes.length := by
  obtain ⟨c, hway⟩ := exists_way_of_isChain hg hn h
  have hle := hway.length_le hg hacyclic (List.mem_map_of_mem hn)
  rwa [List.length_map] at hle

-- ---------------------------------------------------------------------------
-- Cycles
-- ---------------------------------------------------------------------------

theorem exists_nests_of_child (hg : w.graph.Proper) (hn : n ∈ w.graph.nodes)
    (h : w.graph.Child n.name b) : ∃ m ∈ w.graph.nodes, m.name = b ∧ w.Nests n m := by
  rw [← hg.mem_next, ← names_drawnChildren hg hn] at h
  obtain ⟨m, hm, hname⟩ := List.mem_map.mp h
  exact ⟨m, (mem_drawnChildren hg hm).1, hname, hm⟩

def Above (w : Drawing) (c : String) (n : Node) : Prop :=
  n ∈ w.graph.nodes ∧ TransGen w.graph.Child n.name c

theorem Above.exists_nests (hg : w.graph.Proper) (hcycle : TransGen w.graph.Child c c)
    (h : w.Above c n) : ∃ m, w.Above c m ∧ w.Nests n m := by
  obtain ⟨hn, hway⟩ := h
  obtain ⟨b, hchild, hrest⟩ : ∃ b, w.graph.Child n.name b ∧ TransGen w.graph.Child b c := by
    rcases Relation.TransGen.head'_iff.mp hway with ⟨b, hchild, hrest⟩
    rcases Relation.reflTransGen_iff_eq_or_transGen.mp hrest with rfl | hrest
    · exact ⟨_, hchild, hcycle⟩
    · exact ⟨b, hchild, hrest⟩
  obtain ⟨m, hm, rfl, hnests⟩ := exists_nests_of_child hg hn hchild
  exact ⟨m, ⟨hm, hrest⟩, hnests⟩

theorem Above.not_draws (hg : w.graph.Proper) (hcycle : TransGen w.graph.Child c c)
    (h : w.Above c n) : ¬ w.Draws n bs := by
  intro hdraws
  -- A node above the cycle has another one above it inside, so no drawing comes first.
  induction hdraws with
  | alone hleaf =>
    obtain ⟨m, -, hnests⟩ := h.exists_nests hg hcycle
    obtain ⟨e, he, -⟩ := List.mem_filterMap.mp hnests
    refine hleaf ?_
    rw [Node.hasChildren, Bool.not_eq_true', List.isEmpty_eq_false_iff]
    exact List.ne_nil_of_mem he
  | around _ _ _ ih =>
    obtain ⟨m, hm, hnests⟩ := h.exists_nests hg hcycle
    exact ih m hnests hm

theorem Above.exists_endless (hg : w.graph.Proper) (hcycle : TransGen w.graph.Child c c)
    (h : w.Above c n) :
    ∃ drawn : Nat → Node, drawn 0 = n ∧ ∀ k, w.Nests (drawn k) (drawn (k + 1)) := by
  choose next hnext hnests using fun m : {m // w.Above c m} => m.2.exists_nests hg hcycle
  let descend (m : {m // w.Above c m}) : {m // w.Above c m} := ⟨next m, hnext m⟩
  refine ⟨fun k => (descend^[k] ⟨n, h⟩).1, rfl, fun k => ?_⟩
  simp only [Function.iterate_succ_apply']
  exact hnests _

-- ---------------------------------------------------------------------------
-- The theorem
-- ---------------------------------------------------------------------------

/-- Drawing a wired graph relies on the cycle check: where that finds nothing every drawing
ends, and drawings lie inside one another no deeper than there are nodes. On a cycle they
go on without end. -/
theorem drawing_ends {g : Graph} (hg : g.Wired) (style : LinkStyle) (mark : String) :
    let w : Drawing := ⟨g, style, mark⟩
    (g.cycle? = none → ∀ n ∈ g.nodes, w.Draws n (w.blocks n) ∧
      ∀ chain : List Node, (n :: chain).IsChain w.Nests →
        (n :: chain).length ≤ g.nodes.length) ∧
    (∀ n ∈ g.nodes, TransGen g.Child n.name n.name → (∀ bs, ¬ w.Draws n bs) ∧
      ∃ drawn : Nat → Node, drawn 0 = n ∧ ∀ k, w.Nests (drawn k) (drawn (k + 1))) ∧
    (g.cycle? = none ↔ ∀ n ∈ g.nodes, ∃ bs, w.Draws n bs) := by
  intro w
  have hproper : w.graph.Proper := hg.proper
  have hends : g.cycle? = none → ∀ n ∈ g.nodes, w.Draws n (w.blocks n) := fun hc n hn =>
    draws_of_blocksWithin? (blocksWithin?_length hproper (hproper.cycle?_none hc) hn)
  refine ⟨fun hc n hn => ⟨hends hc n hn, fun chain hchain => ?_⟩, fun n hn hcycle => ?_, ?_⟩
  · exact length_le_of_isChain hproper (hproper.cycle?_none hc) hn hchain
  · have habove : w.Above n.name n := ⟨hn, hcycle⟩
    exact ⟨fun bs => habove.not_draws hproper hcycle, habove.exists_endless hproper hcycle⟩
  · refine ⟨fun hc n hn => ⟨_, hends hc n hn⟩, fun hall => ?_⟩
    rw [Option.eq_none_iff_forall_ne_some]
    intro name hname
    have hcycle := hproper.cycle?_some hname
    obtain ⟨b, hchild, -⟩ := Relation.TransGen.head'_iff.mp hcycle
    obtain ⟨n, hn, rfl⟩ := List.mem_map.mp hchild.mem_names
    obtain ⟨bs, hbs⟩ := hall n hn
    exact Above.not_draws hproper hcycle ⟨hn, hcycle⟩ hbs

def playerGraph (held : List SceneNode) : Graph :=
  let r := (Registry.addScene { dir := ⟨"p"⟩ } ⟨"p/Level.tscn"⟩
    { root := some { name := "Level", typeName := "Node", children := [
      { name := "Player", typeName := "Node" }] } }).addScene ⟨"p/Player.tscn"⟩
    { root := some { name := "Player", typeName := "Node", children := held } }
  (r.graph "I").wire {}

theorem wired_playerGraph (held : List SceneNode) : (playerGraph held).Wired :=
  .first (((Registry.Built.empty _).addScene _ _).addScene _ _) "I" {}

theorem drawing_ends_player :
    let done := playerGraph []
    let endless := playerGraph [{ name := "Level", typeName := "Node" }]
    (done.Wired ∧ done.cycle? = none ∧
      ∀ n ∈ done.nodes, Draws ⟨done, .absolute "vscode", "I"⟩ n
        (blocks ⟨done, .absolute "vscode", "I"⟩ n)) ∧
    (endless.Wired ∧ endless.cycle? = some "Player" ∧ ∃ n ∈ endless.nodes, n.name = "Player" ∧
      ∀ bs, ¬ Draws ⟨endless, .absolute "vscode", "I"⟩ n bs) := by
  intro done endless
  have hdone : done.cycle? = none := by decide +kernel
  have hendless : endless.cycle? = some "Player" := by decide +kernel
  have hnode : ∃ n ∈ endless.nodes, n.name = "Player" := by
    have hmem : "Player" ∈ endless.nodes.map (·.name) := by decide +kernel
    exact List.mem_map.mp hmem
  have hends := drawing_ends (wired_playerGraph []) (.absolute "vscode") "I"
  have hnever := drawing_ends (wired_playerGraph [{ name := "Level", typeName := "Node" }])
    (.absolute "vscode") "I"
  obtain ⟨n, hn, hname⟩ := hnode
  refine ⟨⟨wired_playerGraph _, hdone, fun m hm => (hends.1 hdone m hm).1⟩,
    wired_playerGraph _, hendless, n, hn, hname, ?_⟩
  refine (hnever.2.1 n hn ?_).1
  rw [hname]
  exact (wired_playerGraph _).proper.cycle?_some hendless

end Drawing

end SceneDiagram
