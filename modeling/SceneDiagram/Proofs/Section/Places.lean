import SceneDiagram.Proofs.Section.Row
import SceneDiagram.Proofs.Token.Tiling

/-!
# Places of values

`Section.parts_exact`: in a file, the place of a value holds the tokens that the value is read
from, all of them and no others. By themselves they are read as that value again, since what
follows a value counts only where a bare word would be called. Parts one behind the other
stand at places one behind the other, and the values in a value stand strictly inside it.
-/

namespace SceneDiagram

-- ---------------------------------------------------------------------------
-- Places in order
-- ---------------------------------------------------------------------------

namespace Span

def Before (s t : Span) : Prop := s.stop ≤ t.start

/-- No place is empty, and each is before those behind it. -/
structure Ordered (spans : List Span) : Prop where
  solid : ∀ s ∈ spans, s.start < s.stop
  apart : spans.Pairwise Before

theorem Ordered.sublist (h : Ordered spans) (hsub : List.Sublist sub spans) : Ordered sub where
  solid s hs := h.solid s (hsub.subset hs)
  apart := h.apart.sublist hsub

theorem ordered_cons :
    Ordered (s :: spans) ↔ s.start < s.stop ∧ (∀ t ∈ spans, s.Before t) ∧ Ordered spans := by
  constructor
  · rintro ⟨hsolid, hapart⟩
    obtain ⟨hs, hsolid⟩ := List.forall_mem_cons.mp hsolid
    obtain ⟨hbefore, hapart⟩ := List.pairwise_cons.mp hapart
    exact ⟨hs, hbefore, hsolid, hapart⟩
  · rintro ⟨hs, hbefore, hsolid, hapart⟩
    exact ⟨List.forall_mem_cons.mpr ⟨hs, hsolid⟩, .cons hbefore hapart⟩

theorem Chain.start_le (h : Chain a b spans) : ∀ s ∈ spans, a ≤ s.start := by
  induction h with
  | nil => exact nofun
  | cons hlt _ ih =>
    exact List.forall_mem_cons.mpr ⟨Nat.le_refl _, fun s hs =>
      Nat.le_trans (Nat.le_of_lt hlt) (ih s hs)⟩

theorem Chain.ordered (h : Chain a b spans) : Ordered spans := by
  induction h with
  | nil => exact ⟨nofun, .nil⟩
  | cons hlt hrest ih => exact ordered_cons.mpr ⟨hlt, hrest.start_le, ih⟩

end Span

namespace Tokens

variable {ts c front rest : Tokens} {s : Span} {t : Spanned Token}

def Ordered (ts : Tokens) : Prop := Span.Ordered (ts.map (·.span))

def within (ts : Tokens) (s : Span) : Tokens :=
  ts.filter fun t => s.start ≤ t.span.start && t.span.stop ≤ s.stop

/-- The tokens reach from the beginning of the place to its end. -/
structure Fills (c : Tokens) (s : Span) : Prop where
  first : c.head?.map (·.span.start) = some s.start
  last : c.getLast?.map (·.span.stop) = some s.stop

theorem read_ordered (h : read source = .ok ts) : ts.Ordered := (read_slices h).1.ordered

theorem Ordered.sublist (h : ts.Ordered) (hsub : List.Sublist c ts) : c.Ordered :=
  Span.Ordered.sublist h (hsub.map _)

theorem Ordered.suffix (h : ts.Ordered) (hsub : rest <:+ ts) : rest.Ordered :=
  h.sublist hsub.sublist

theorem Ordered.solid (h : ts.Ordered) (ht : t ∈ ts) : t.span.start < t.span.stop :=
  Span.Ordered.solid h _ (List.mem_map_of_mem ht)

theorem Ordered.before (h : (front ++ rest).Ordered) (ht : t ∈ front) {u : Spanned Token}
    (hu : u ∈ rest) : t.span.stop ≤ u.span.start := by
  have hapart := h.apart
  rw [List.map_append, List.pairwise_append] at hapart
  exact hapart.2.2 _ (List.mem_map_of_mem ht) _ (List.mem_map_of_mem hu)

theorem Ordered.head_before (h : Ordered (t :: ts)) {u : Spanned Token} (hu : u ∈ ts) :
    t.span.stop ≤ u.span.start :=
  (Span.ordered_cons.mp h).2.1 _ (List.mem_map_of_mem hu)

namespace Fills

theorem exists_first (h : Fills c s) : ∃ t d, c = t :: d ∧ t.span.start = s.start := by
  obtain ⟨t, ht, hstart⟩ := Option.map_eq_some_iff.mp h.first
  obtain ⟨d, rfl⟩ := List.head?_eq_some_iff.mp ht
  exact ⟨t, d, rfl, hstart⟩

theorem exists_last (h : Fills c s) : ∃ d u, c = d ++ [u] ∧ u.span.stop = s.stop := by
  obtain ⟨u, hu, hstop⟩ := Option.map_eq_some_iff.mp h.last
  obtain ⟨d, rfl⟩ := List.getLast?_eq_some_iff.mp hu
  exact ⟨d, u, rfl, hstop⟩

theorem holds (h : Fills c s) (hc : c.Ordered) (ht : t ∈ c) :
    s.start ≤ t.span.start ∧ t.span.stop ≤ s.stop := by
  constructor
  · obtain ⟨u, d, rfl, hstart⟩ := h.exists_first
    rw [← hstart]
    rcases List.mem_cons.mp ht with rfl | ht
    · exact Nat.le_refl _
    · have hsolid := hc.solid List.mem_cons_self
      have hbefore := hc.head_before ht
      omega
  · obtain ⟨d, u, rfl, hstop⟩ := h.exists_last
    rw [← hstop]
    rcases List.mem_append.mp ht with ht | ht
    · have hu := List.mem_singleton_self u
      have hsolid := hc.solid (List.mem_append_right d hu)
      have hbefore := hc.before ht hu
      omega
    · exact Nat.le_of_eq (List.mem_singleton.mp ht ▸ rfl)

theorem solid (h : Fills c s) (hc : c.Ordered) : s.start < s.stop := by
  obtain ⟨t, d, rfl, -⟩ := h.exists_first
  have hsolid := hc.solid List.mem_cons_self
  have hholds := h.holds hc List.mem_cons_self
  omega

theorem before_rest (h : Fills c s) (hc : (c ++ rest).Ordered) (ht : t ∈ rest) :
    s.stop ≤ t.span.start := by
  obtain ⟨d, u, rfl, hstop⟩ := h.exists_last
  rw [← hstop]
  exact hc.before (List.mem_append_right d (List.mem_singleton_self u)) ht

theorem behind_front (h : Fills c s) (hc : (front ++ c).Ordered) (ht : t ∈ front) :
    t.span.stop ≤ s.start := by
  obtain ⟨u, d, rfl, hstart⟩ := h.exists_first
  rw [← hstart]
  exact hc.before ht List.mem_cons_self

theorem within_eq (h : Fills c s) (hts : (front ++ (c ++ rest)).Ordered) :
    within (front ++ (c ++ rest)) s = c := by
  have hbehind := hts.sublist (List.sublist_append_right front (c ++ rest))
  have hfront := hts.sublist (List.Sublist.append_left (List.sublist_append_left c rest) front)
  have hc := hbehind.sublist (List.sublist_append_left c rest)
  have hnone {u : Spanned Token} (hu : u ∈ front ++ (c ++ rest))
      (hout : u.span.stop ≤ s.start ∨ s.stop ≤ u.span.start) :
      ¬ (decide (s.start ≤ u.span.start) && decide (u.span.stop ≤ s.stop)) = true := by
    have hsolid := hts.solid hu
    simp only [Bool.and_eq_true, decide_eq_true_eq]
    omega
  rw [within, List.filter_append, List.filter_append, List.filter_eq_nil_iff.mpr,
    List.filter_eq_self.mpr, List.filter_eq_nil_iff.mpr, List.nil_append, List.append_nil]
  · exact fun u hu => hnone (List.mem_append_right _ (List.mem_append_right _ hu))
      (.inr (h.before_rest hbehind hu))
  · exact fun u hu => by simpa using h.holds hc hu
  · exact fun u hu => hnone (List.mem_append_left _ hu) (.inl (h.behind_front hfront hu))

end Fills

end Tokens

namespace Grammar

open Tokens (Fills)

variable {ts us rest : Tokens} {s : Span} {v : Spanned Value}

-- ---------------------------------------------------------------------------
-- Places in a row
-- ---------------------------------------------------------------------------

/-- The tokens in front of `rest` take the place up. -/
def Takes (ts : Tokens) (s : Span) (rest : Tokens) : Prop := ∃ c, Fills c s ∧ ts = c ++ rest

theorem takes_head (t : Spanned Token) (ts : Tokens) : Takes (t :: ts) t.span ts :=
  ⟨[t], ⟨rfl, rfl⟩, rfl⟩

theorem takes_union {t close : Spanned Token} (hts : Tokens.Ordered (t :: us))
    (h : close :: rest <:+ us) : Takes (t :: us) (t.span.union close.span) rest := by
  obtain ⟨d, rfl⟩ := h
  have hbefore : t.span.stop ≤ close.span.start :=
    hts.head_before (List.mem_append_right d List.mem_cons_self)
  have hfirst := hts.solid List.mem_cons_self
  have hlast := hts.solid (List.mem_cons_of_mem t (List.mem_append_right d List.mem_cons_self))
  refine ⟨t :: (d ++ [close]), ⟨?_, ?_⟩, by simp⟩
  · rw [Span.union, Nat.min_eq_left (by omega)]
    rfl
  · rw [Span.union, Nat.max_eq_right (by omega), ← List.cons_append, List.getLast?_concat]
    rfl

theorem InRow.ordered (h : InRow Takes ts spans rest) (hts : ts.Ordered) :
    Span.Ordered spans ∧ ∀ s ∈ spans, ∃ t ∈ ts, t.span.start = s.start := by
  induction h with
  | nil => exact ⟨⟨nofun, .nil⟩, nofun⟩
  | cons hsub hs _ ih =>
    obtain ⟨c, hfills, rfl⟩ := hs
    have hboth := hts.suffix hsub
    have hbehind := hsub.sublist.subset
    obtain ⟨hordered, hstarts⟩ := ih (hboth.suffix (List.suffix_append c _))
    refine ⟨Span.ordered_cons.mpr ⟨?_, fun s hs => ?_, hordered⟩,
      List.forall_mem_cons.mpr ⟨?_, fun s hs => ?_⟩⟩
    · exact hfills.solid (hboth.sublist (List.sublist_append_left c _))
    · obtain ⟨t, ht, hstart⟩ := hstarts s hs
      rw [Span.Before, ← hstart]
      exact hfills.before_rest hboth ht
    · obtain ⟨t, d, rfl, hstart⟩ := hfills.exists_first
      exact ⟨t, hbehind List.mem_cons_self, hstart⟩
    · obtain ⟨t, ht, hstart⟩ := hstarts s hs
      exact ⟨t, hbehind (List.mem_append_right c ht), hstart⟩

theorem InRow.takes {Reads : Tokens → α → Tokens → Prop} (place : α → Span)
    (htakes : ∀ (ts : Tokens) x rest, Reads ts x rest → ts.Ordered → Takes ts (place x) rest)
    (h : InRow Reads ts xs rest) (hts : ts.Ordered) : InRow Takes ts (xs.map place) rest := by
  induction h with
  | nil hrest => exact .nil hrest
  | cons hsub hx _ ih =>
    have hordered := hts.suffix hsub
    have hplace := htakes _ _ _ hx hordered
    obtain ⟨c, -, rfl⟩ := id hplace
    exact .cons hsub hplace (ih (hordered.suffix (List.suffix_append c _)))

theorem ValueAt.takes (h : ValueAt ts v rest) (hts : ts.Ordered) : Takes ts v.span rest := by
  obtain ⟨t, us, rfl, ⟨hspan, -, rfl⟩ | ⟨close, hspan, hrow⟩⟩ := h.row
  · rw [hspan]
    exact takes_head t us
  · rw [hspan]
    exact takes_union hts (hrow.suffix fun _ _ _ => ValueAt.suffix)

theorem PartAt.takes (h : PartAt ts x rest) (hts : ts.Ordered) : Takes ts x.span rest := by
  cases h with
  | word => exact takes_head (Grammar.word _) _
  | value h => exact h.takes hts

/-- The values in a value stand strictly inside it, one behind the other. -/
theorem ValueAt.parts_inside (h : ValueAt ts v rest) (hts : ts.Ordered) :
    (∀ p ∈ v.value.parts, v.span.start < p.span.start ∧ p.span.stop < v.span.stop) ∧
      v.value.parts.Pairwise fun p q => p.span.Before q.span := by
  obtain ⟨t, us, rfl, ⟨-, hnone, -⟩ | ⟨close, hspan, hrow⟩⟩ := h.row
  · rw [hnone]
    exact ⟨nofun, .nil⟩
  · -- The first token and the closing one are a part of the row as well.
    have hus := hts.suffix (List.suffix_cons t us)
    have hparts := hrow.takes (·.span) (fun _ _ _ => ValueAt.takes) hus
    have hall := InRow.cons List.suffix_rfl (takes_head t us)
      (hparts.append (.single (takes_head close rest)))
    obtain ⟨hfirst, hbehind, hordered⟩ := Span.ordered_cons.mp (hall.ordered hts).1
    obtain ⟨hapart, -, hbefore⟩ := List.pairwise_append.mp hordered.apart
    refine ⟨fun p hp => ?_, List.pairwise_map.mp hapart⟩
    have hp := List.mem_map_of_mem (f := (·.span)) hp
    have hclose := List.mem_singleton_self close.span
    have hstart : t.span.stop ≤ p.span.start := hbehind _ (List.mem_append_left _ hp)
    have hstop : p.span.stop ≤ close.span.start := hbefore _ hp _ hclose
    have hlast := hordered.solid _ (List.mem_append_right _ hclose)
    rw [hspan]
    exact ⟨Nat.lt_of_le_of_lt (Nat.min_le_left _ _) (by omega),
      Nat.lt_of_lt_of_le (by omega) (Nat.le_max_right _ _)⟩

end Grammar

-- ---------------------------------------------------------------------------
-- Values and their tokens
-- ---------------------------------------------------------------------------

/-- The place of a value among the tokens of a file is exact. -/
structure Value.ExactIn (ts : Tokens) (v : Spanned Value) : Prop where
  /-- It goes from the beginning of the first token there to the end of the last. -/
  fills : Tokens.Fills (ts.within v.span) v.span
  /-- These tokens are next to each other, and the value that is read where they begin takes
  them and no others. -/
  consumed : ∃ before rest, ts = before ++ (ts.within v.span ++ rest) ∧
    Grammar.Gives (readValue (ts.within v.span ++ rest)) v rest
  /-- By themselves they are read as the value, and nothing is left. -/
  alone : Grammar.Gives (readValue (ts.within v.span)) v []
  inside : ∀ p ∈ v.value.parts, v.span.start < p.span.start ∧ p.span.stop < v.span.stop
  apart : v.value.parts.Pairwise fun p q => p.span.Before q.span

theorem Grammar.ValueAt.exactIn {ts us : Tokens} (h : ValueAt us v rest) (hts : ts.Ordered)
    (hus : us <:+ ts) : Value.ExactIn ts v := by
  obtain ⟨before, rfl⟩ := hus
  obtain ⟨c, -, rfl, hextent⟩ := h.extent
  have hordered := hts.suffix (List.suffix_append before _)
  obtain ⟨c', hfills, heq⟩ := h.takes hordered
  obtain rfl := List.append_cancel_right heq
  obtain ⟨hinside, hapart⟩ := h.parts_inside hordered
  have hwithin := hfills.within_eq hts
  -- What is behind counts only if it opens a call, and where the tokens end nothing does.
  have halone := hextent [] nofun
  rw [List.append_nil] at halone
  constructor
  · rwa [hwithin]
  · rw [hwithin]
    exact ⟨before, rest, rfl, gives_readValue.mpr h⟩
  · rw [hwithin]
    exact gives_readValue.mpr halone
  · exact hinside
  · exact hapart

theorem Section.parts_ordered (hread : Tokens.read source = .ok ts)
    (hsections : Section.ofTokens ts = .ok sections) :
    Span.Ordered ((sections.flatMap Section.parts).map Part.span) := by
  have hts := Tokens.read_ordered hread
  have hrow := Grammar.row_of_ofTokens hsections
  exact ((hrow.takes Part.span (fun _ _ _ => Grammar.PartAt.takes) hts).ordered hts).1

/-- In a file the words and values stand one behind the other, and all values, at any depth,
at exact places. -/
theorem Section.parts_exact (hread : Tokens.read source = .ok ts)
    (hsections : Section.ofTokens ts = .ok sections) :
    Span.Ordered ((sections.flatMap Section.parts).map Part.span) ∧
      ∀ v, .value v ∈ sections.flatMap Section.parts → ∀ w, Value.PartOf w v →
        Value.ExactIn ts w := by
  have hrow := Grammar.row_of_ofTokens hsections
  refine ⟨parts_ordered hread hsections, fun v hv w hw => ?_⟩
  obtain ⟨us, us₁, hus, ⟨⟩ | hvalue⟩ := hrow.reads (fun _ _ _ => Grammar.PartAt.suffix) _ hv
  obtain ⟨us₂, us₃, hus₂, hvalue⟩ := hvalue.part hw
  exact hvalue.exactIn (Tokens.read_ordered hread) (hus₂.trans hus)

def Section.nested : String := "[a k=T(\x7bb: c\x7d)]"

theorem Section.parts_exact_nested : ∃ ts sections,
    Tokens.read nested = .ok ts ∧ Section.ofTokens ts = .ok sections ∧
      (sections.flatMap Section.parts).map Part.span = [⟨1, 2⟩, ⟨3, 4⟩, ⟨5, 14⟩] ∧
      ∀ v, .value v ∈ sections.flatMap Section.parts → ∀ w, Value.PartOf w v →
        Value.ExactIn ts w := by
  have hplaces : (Section.readAll nested).toOption.map
      (fun sections => (sections.flatMap Section.parts).map Part.span) =
      some [⟨1, 2⟩, ⟨3, 4⟩, ⟨5, 14⟩] := by
    decide +kernel
  obtain ⟨sections, hread, hplaces⟩ := toOption_map_eq_some.mp hplaces
  obtain ⟨ts, hts, hsections⟩ := Grammar.readAll_ok.mp hread
  exact ⟨ts, sections, hts, hsections, hplaces, (Section.parts_exact hts hsections).2⟩

end SceneDiagram
