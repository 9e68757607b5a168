import SceneDiagram.Path
import SceneDiagram.Proofs.Text.Split

/-!
# Trails

The trail of a path is its steps without the mark of where it begins. Joining
two paths joins their trails (`trail_resolve`), and a path that is written from
its steps has them back (`trail_slashed`). `reach` reads steps without looking
at a file system: `..` leads to the directory around.
-/

namespace SceneDiagram.Path

open Text

variable {p base : Path} {steps : List Component}

-- ---------------------------------------------------------------------------
-- Pieces
-- ---------------------------------------------------------------------------

/-- A name as a directory lists it, which is one step of a path. -/
structure IsName (s : String) : Prop where
  noSlash : '/' ∉ s.toList
  ne_empty : s ≠ ""
  ne_here : s ≠ "."
  ne_up : s ≠ ".."

instance : Decidable (IsName s) :=
  decidable_of_iff ('/' ∉ s.toList ∧ s ≠ "" ∧ s ≠ "." ∧ s ≠ "..")
    ⟨fun ⟨hslash, hempty, hhere, hup⟩ => ⟨hslash, hempty, hhere, hup⟩,
      fun ⟨hslash, hempty, hhere, hup⟩ => ⟨hslash, hempty, hhere, hup⟩⟩

inductive Component.IsInner : Component → Prop
  | up : IsInner .up
  | name (h : IsName s) : IsInner (.name s)

theorem IsName.ofPiece? (h : IsName s) : Component.ofPiece? s = some (.name s) := by
  simp [Component.ofPiece?, h.ne_empty, h.ne_here, h.ne_up]

namespace Component

variable {c : Component}

theorem IsInner.ofPiece? (h : c.IsInner) : ofPiece? c.text = some c := by
  cases h with
  | up => rfl
  | name h => exact h.ofPiece?

theorem IsInner.noSlash (h : c.IsInner) : '/' ∉ c.text.toList := by
  cases h with
  | up => decide
  | name h => exact h.noSlash

theorem IsInner.shown? (h : c.IsInner) : shown? c = some c.text := by
  cases h <;> rfl

theorem IsInner.text_ne_empty (h : c.IsInner) : c.text ≠ "" := by
  cases h with
  | up => decide
  | name h => exact h.ne_empty

theorem isInner_of_ofPiece? (hs : '/' ∉ s.toList) (h : ofPiece? s = some c) :
    c.IsInner ∧ c.text = s := by
  unfold ofPiece? at h
  split at h
  · cases h
  · next hidle =>
    obtain ⟨hempty, hhere⟩ := not_or.mp hidle
    split at h
    · next hup =>
      cases h
      exact ⟨.up, hup.symm⟩
    · next hup =>
      cases h
      exact ⟨.name ⟨hs, hempty, hhere, hup⟩, rfl⟩

end Component

-- ---------------------------------------------------------------------------
-- Trails
-- ---------------------------------------------------------------------------

/-- The steps of a path behind the mark of where it begins. -/
def trail (p : Path) : List Component := (split '/' p.text).filterMap Component.ofPiece?

def front (p : Path) : List Component :=
  if p.isAbsolute then [.root] else if (split '/' p.text).head? = some "." then [.here] else []

theorem components_eq (p : Path) : p.components = p.front ++ p.trail := rfl

theorem components_of_isAbsolute (h : p.isAbsolute) : p.components = .root :: p.trail := by
  rw [components_eq, front, if_pos h]
  rfl

theorem isInner_of_mem_trail (h : c ∈ p.trail) : c.IsInner := by
  obtain ⟨s, hs, hc⟩ := List.mem_filterMap.mp h
  exact (Component.isInner_of_ofPiece? (not_mem_of_mem_split hs) hc).1

@[simp] theorem trail_empty : trail ⟨""⟩ = [] := by
  simp [trail, split_of_not_mem, Component.ofPiece?]

theorem trail_piece (h : c.IsInner) : trail ⟨c.text⟩ = [c] := by
  rw [trail, split_of_not_mem h.noSlash, List.filterMap_cons_some h.ofPiece?]
  rfl

theorem split_slash (a b : String) : split '/' (a ++ "/" ++ b) = split '/' a ++ split '/' b :=
  split_append a b

theorem trail_slash (a b : String) : trail ⟨a ++ "/" ++ b⟩ = trail ⟨a⟩ ++ trail ⟨b⟩ := by
  rw [trail, split_slash, List.filterMap_append]
  rfl

theorem trail_walked (h : ∀ c ∈ steps, c.IsInner) :
    trail ⟨join "" (steps.map (·.text ++ "/"))⟩ = steps := by
  induction steps with
  | nil => exact trail_empty
  | cons c steps ih =>
    obtain ⟨hc, hsteps⟩ := List.forall_mem_cons.mp h
    rw [List.map_cons, join_empty_cons, trail_slash, trail_piece hc, ih hsteps]
    rfl

theorem filterMap_shown? (h : ∀ c ∈ steps, c.IsInner) :
    steps.filterMap Component.shown? = steps.map Component.text := by
  induction steps with
  | nil => rfl
  | cons c steps ih =>
    obtain ⟨hc, hsteps⟩ := List.forall_mem_cons.mp h
    rw [List.filterMap_cons_some hc.shown?, ih hsteps, List.map_cons]

theorem filterMap_ofPiece? (h : ∀ c ∈ steps, c.IsInner) :
    (steps.map Component.text).filterMap Component.ofPiece? = steps := by
  induction steps with
  | nil => rfl
  | cons c steps ih =>
    obtain ⟨hc, hsteps⟩ := List.forall_mem_cons.mp h
    rw [List.map_cons, List.filterMap_cons_some hc.ofPiece?, ih hsteps]

theorem split_slashed (h : ∀ c ∈ steps, c.IsInner) (hne : steps ≠ []) :
    split '/' (slashed steps) = steps.map Component.text := by
  rw [slashed, filterMap_shown? h]
  have hslash : ∀ s ∈ steps.map Component.text, '/' ∉ s.toList := by
    intro s hs
    obtain ⟨c, hc, rfl⟩ := List.mem_map.mp hs
    exact (h c hc).noSlash
  exact split_join hslash (by simpa using hne)

theorem trail_slashed (h : ∀ c ∈ steps, c.IsInner) : trail ⟨slashed steps⟩ = steps := by
  by_cases hne : steps = []
  · subst hne
    exact trail_empty
  · rw [trail, split_slashed h hne, filterMap_ofPiece? h]

-- ---------------------------------------------------------------------------
-- Joining
-- ---------------------------------------------------------------------------

theorem eq_append_slash (h : s.toList.getLast? = some '/') : ∃ t : String, s = t ++ "/" := by
  obtain ⟨cs, hcs⟩ := List.getLast?_eq_some_iff.mp h
  refine ⟨String.ofList cs, String.toList_inj.mp ?_⟩
  rw [hcs, String.toList_append, String.toList_ofList]
  rfl

theorem resolve_cases (base : Path) (h : ¬ p.isAbsolute) :
    base.text = "" ∧ base.resolve p = p ∨
    ∃ t, (base.text = t ∨ base.text = t ++ "/") ∧ base.text ≠ "" ∧
      base.resolve p = ⟨t ++ "/" ++ p.text⟩ := by
  by_cases hempty : base.text = ""
  · exact .inl ⟨hempty, by simp [resolve, h, hempty]⟩
  · by_cases hlast : base.text.toList.getLast? = some '/'
    · obtain ⟨t, ht⟩ := eq_append_slash hlast
      exact .inr ⟨t, .inr ht, hempty, by simp only [resolve, h, ht]; simp⟩
    · exact .inr ⟨base.text, .inl rfl, hempty, by simp [resolve, h, hempty, hlast]⟩

theorem trail_resolve (base : Path) (h : ¬ p.isAbsolute) :
    (base.resolve p).trail = base.trail ++ p.trail := by
  obtain ⟨hempty, hr⟩ | ⟨t, ht, -, hr⟩ := resolve_cases base h
  · have hbase : base.trail = [] := by rw [trail, hempty]; exact trail_empty
    rw [hr, hbase, List.nil_append]
  · have hbase : base.trail = trail ⟨t⟩ := by
      rcases ht with ht | ht
      · rw [trail, ht, trail]
      · calc base.trail = trail ⟨t ++ "/" ++ ""⟩ := by simp [trail, ht]
          _ = trail ⟨t⟩ := by rw [trail_slash, trail_empty, List.append_nil]
    rw [hr, hbase, trail_slash]

theorem isAbsolute_append (hne : s ≠ "") : isAbsolute ⟨s ++ t⟩ = isAbsolute ⟨s⟩ := by
  cases h : s.toList with
  | nil => exact absurd (String.toList_eq_nil_iff.mp h) hne
  | cons c cs => simp [isAbsolute, h]

theorem front_slash (s t : String) : front ⟨s ++ "/" ++ t⟩ = front ⟨s ++ "/"⟩ := by
  have hhead (u : String) : (split '/' (s ++ "/" ++ u)).head? = (split '/' s).head? := by
    rw [split_slash, List.head?_append, Option.or_of_isSome]
    simpa using split_ne_nil '/' s
  have hempty : s ++ "/" = s ++ "/" ++ "" := by simp
  rw [front, front, isAbsolute_append (by simp), hhead, hempty, hhead]

theorem front_slash_empty (hne : s ≠ "") : front ⟨s ++ "/"⟩ = front ⟨s⟩ := by
  have hhead : (split '/' (s ++ "/" ++ "")).head? = (split '/' s).head? := by
    rw [split_slash, List.head?_append, Option.or_of_isSome]
    simpa using split_ne_nil '/' s
  rw [String.append_empty] at hhead
  rw [front, front, isAbsolute_append hne, hhead]

theorem front_resolve (hne : base.text ≠ "") (h : ¬ p.isAbsolute) :
    (base.resolve p).front = base.front := by
  obtain ⟨hempty, -⟩ | ⟨t, ht, -, hr⟩ := resolve_cases base h
  · exact absurd hempty hne
  · obtain ⟨text⟩ := base
    rw [hr, front_slash]
    rcases ht with rfl | rfl
    · exact front_slash_empty hne
    · rfl

theorem components_resolve (hne : base.text ≠ "") (h : ¬ p.isAbsolute) :
    (base.resolve p).components = base.components ++ p.trail := by
  rw [components_eq, front_resolve hne h, trail_resolve base h, ← List.append_assoc,
    ← components_eq]

theorem resolve_of_isAbsolute (base : Path) (h : p.isAbsolute) : base.resolve p = p := by
  rw [resolve, if_pos h]

theorem isAbsolute_resolve (base : Path) (h : ¬ p.isAbsolute) :
    (base.resolve p).isAbsolute = base.isAbsolute := by
  obtain ⟨hempty, hr⟩ | ⟨t, ht, hne, hr⟩ := resolve_cases base h
  · have hbase : base.isAbsolute = false := by simp [isAbsolute, hempty]
    rw [hr, hbase, Bool.eq_false_iff.mpr h]
  · obtain ⟨text⟩ := base
    rw [hr]
    rcases ht with rfl | rfl
    · rw [String.append_assoc, isAbsolute_append hne]
    · rw [isAbsolute_append hne]

theorem not_isAbsolute_of_noSlash (h : '/' ∉ s.toList) : ¬ isAbsolute ⟨s⟩ := by
  intro habsolute
  have hhead : s.toList.head? = some '/' := by simpa [isAbsolute] using habsolute
  exact h (List.mem_of_head? hhead)

theorem isAbsolute_of_mem_components (h : .root ∈ p.components) : p.isAbsolute := by
  cases hp : p.isAbsolute with
  | true => rfl
  | false =>
    rw [components_eq, front, hp, if_neg Bool.false_ne_true] at h
    rcases List.mem_append.mp h with h | h
    · split at h
      · simp at h
      · cases h
    · cases isInner_of_mem_trail h

theorem isAbsolute_iff_mem_components : p.isAbsolute ↔ .root ∈ p.components :=
  ⟨fun h => components_of_isAbsolute h ▸ List.mem_cons_self, isAbsolute_of_mem_components⟩

/-- A path that holds names and nothing else. -/
def IsPlain (p : Path) : Prop := ∃ names : List String, p.components = names.map .name

theorem IsPlain.front_eq (h : p.IsPlain) : p.front = [] := by
  obtain ⟨names, hnames⟩ := h
  rw [components_eq] at hnames
  cases hfront : p.front with
  | nil => rfl
  | cons c front =>
    rw [hfront] at hnames
    have hc : c = .root ∨ c = .here := by
      unfold Path.front at hfront
      split at hfront
      · exact .inl (List.cons.inj hfront).1.symm
      · split at hfront
        · exact .inr (List.cons.inj hfront).1.symm
        · cases hfront
    cases names with
    | nil => cases hnames
    | cons n names => rcases hc with rfl | rfl <;> cases hnames

theorem IsPlain.trail_eq (h : p.IsPlain) : p.trail = p.components := by
  rw [components_eq, h.front_eq, List.nil_append]

theorem IsPlain.not_isAbsolute (h : p.IsPlain) : ¬ p.isAbsolute := by
  intro habsolute
  have hfront := h.front_eq
  rw [front, if_pos habsolute] at hfront
  cases hfront

theorem components_of_isName (h : IsName s) : components ⟨s⟩ = [.name s] := by
  have hfront : front ⟨s⟩ = [] := by
    rw [front, if_neg (not_isAbsolute_of_noSlash h.noSlash), split_of_not_mem h.noSlash]
    simp [h.ne_here]
  rw [components_eq, hfront, List.nil_append]
  exact trail_piece (.name h)

theorem IsName.isPlain (h : IsName s) : IsPlain ⟨s⟩ := ⟨[s], components_of_isName h⟩

theorem components_resolve_plain (h : p.IsPlain) (base : Path) :
    (base.resolve p).components = base.components ++ p.components := by
  by_cases hne : base.text = ""
  · obtain ⟨-, hr⟩ | ⟨-, -, hne', -⟩ := resolve_cases base h.not_isAbsolute
    · obtain ⟨text⟩ := base
      cases hne
      rw [hr]
      rfl
    · exact absurd hne hne'
  · rw [components_resolve hne h.not_isAbsolute, h.trail_eq]

theorem components_foldl_child {names : List String} (h : ∀ n ∈ names, IsName n) (base : Path) :
    (names.foldl child base).components = base.components ++ names.map .name := by
  induction names generalizing base with
  | nil => simp
  | cons n names ih =>
    obtain ⟨hn, hnames⟩ := List.forall_mem_cons.mp h
    rw [List.foldl_cons, ih hnames, child, components_resolve_plain hn.isPlain,
      components_of_isName hn, List.map_cons, List.append_assoc]
    rfl

-- ---------------------------------------------------------------------------
-- Reading steps
-- ---------------------------------------------------------------------------

/-- The place that steps lead to from a place. A `..` leads to the directory
around, and from the root to the root itself. -/
def reach (place : List String) : List Component → List String
  | [] => place
  | .root :: steps | .here :: steps => reach place steps
  | .up :: steps => reach place.dropLast steps
  | .name n :: steps => reach (place ++ [n]) steps

theorem reach_append (place : List String) (as bs : List Component) :
    reach place (as ++ bs) = reach (reach place as) bs := by
  induction as generalizing place with
  | nil => rfl
  | cons a as ih => cases a <;> exact ih _

theorem reach_components (place : List String) (p : Path) :
    reach place p.components = reach place p.trail := by
  rw [components_eq, reach_append]
  congr 1
  unfold front
  split
  · rfl
  · split <;> rfl

theorem reach_names (place names : List String) :
    reach place (names.map .name) = place ++ names := by
  induction names generalizing place with
  | nil => simp [reach]
  | cons n names ih => simp [reach, ih]

theorem reach_ups (place : List String) (n : Nat) :
    reach place (List.replicate n .up) = place.take (place.length - n) := by
  induction n generalizing place with
  | zero => simp [reach]
  | succ n ih =>
    rw [List.replicate_succ, reach, ih, List.dropLast_eq_take, List.take_take]
    congr 1
    simp only [List.length_take]
    omega

-- ---------------------------------------------------------------------------
-- Places
-- ---------------------------------------------------------------------------

/-- The place that a path names for who stands at `cwd`, by its steps alone. -/
def placeFrom (cwd : List String) (p : Path) : List String :=
  reach (if p.isAbsolute then [] else cwd) p.trail

theorem placeFrom_of_isAbsolute (cwd : List String) (h : p.isAbsolute) :
    p.placeFrom cwd = reach [] p.trail := by
  rw [placeFrom, if_pos h]

theorem placeFrom_of_not_isAbsolute (cwd : List String) (h : ¬ p.isAbsolute) :
    p.placeFrom cwd = reach cwd p.trail := by
  rw [placeFrom, if_neg h]

theorem placeFrom_resolve (cwd : List String) (base : Path) (h : ¬ p.isAbsolute) :
    (base.resolve p).placeFrom cwd = p.placeFrom (base.placeFrom cwd) := by
  rw [placeFrom, trail_resolve base h, isAbsolute_resolve base h, reach_append, ← placeFrom,
    placeFrom_of_not_isAbsolute _ h]

end SceneDiagram.Path
