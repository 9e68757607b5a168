import SceneDiagram.Proofs.Generation.Reporting
import SceneDiagram.Proofs.Section.Within

/-!
# Labels and the source

`Scene.labels_slice`: every label of what the reading of a scene reports lies in the
source, and can be cut out of it. The exception is a character that begins no token: its
label has the first byte only, so it is that character if it takes one byte, and else no
text at all.
-/

namespace SceneDiagram

open Text

-- ---------------------------------------------------------------------------
-- Slices
-- ---------------------------------------------------------------------------

/-- The place holds whole characters of the source. -/
structure Span.SliceOf (s : Span) (source : String) : Prop where
  ordered : s.start ≤ s.stop
  bounded : s.stop ≤ source.utf8ByteSize
  start : String.Pos.Raw.IsValid source ⟨s.start⟩
  stop : String.Pos.Raw.IsValid source ⟨s.stop⟩

namespace Span

variable {s : Span}

theorem isValid_iff : String.Pos.Raw.IsValid source ⟨n⟩ ↔
    ∃ before after : List Char, source.toList = before ++ after ∧ n = byteLength before := by
  rw [String.Pos.Raw.isValid_iff_exists_append]
  constructor
  · rintro ⟨before, after, rfl, hn⟩
    refine ⟨before.toList, after.toList, String.toList_append, ?_⟩
    rw [byteLength_toList]
    exact congrArg String.Pos.Raw.byteIdx hn
  · rintro ⟨before, after, hsource, rfl⟩
    refine ⟨String.ofList before, String.ofList after, ?_, ?_⟩
    · rw [← String.ofList_append, ← hsource, String.ofList_toList]
    · rw [← utf8ByteSize_ofList]
      rfl

theorem append_of_byteLength_le {v w v' w' : List Char} (h : v ++ w = v' ++ w')
    (hle : byteLength v ≤ byteLength v') : ∃ text, v' = v ++ text ∧ w = text ++ w' := by
  rcases List.append_eq_append_iff.mp h with htext | ⟨text, rfl, rfl⟩
  · exact htext
  · rw [byteLength_append] at hle
    cases text with
    | nil => exact ⟨[], by simp, rfl⟩
    | cons c text =>
      have := byteLength_pos (List.cons_ne_nil c text)
      omega

theorem sliceOf_iff_cuts :
    s.SliceOf source ↔ ∃ before text after, s.Cuts source before text after := by
  constructor
  · rintro ⟨hordered, -, hstart, hstop⟩
    obtain ⟨before, rest, hsource, hstart⟩ := isValid_iff.mp hstart
    obtain ⟨front, after, hfront, hstop⟩ := isValid_iff.mp hstop
    rw [hstart, hstop] at hordered
    obtain ⟨text, rfl, rfl⟩ := append_of_byteLength_le (hsource.symm.trans hfront) hordered
    rw [byteLength_append, ← hstart] at hstop
    have hcuts : Cuts _ _ _ (String.ofList text) (String.ofList after) := .of_append hstart
    rw [← hsource, String.ofList_toList, ← hstop] at hcuts
    exact ⟨_, _, _, hcuts⟩
  · rintro ⟨before, text, after, rfl, hstart, hstop⟩
    refine ⟨?_, ?_, ?_, ?_⟩
    · rw [hstart, hstop, String.utf8ByteSize_append]
      exact Nat.le_add_right _ _
    · rw [hstop]
      conv_rhs => rw [String.utf8ByteSize_append]
      exact Nat.le_add_right _ _
    · rw [hstart, String.append_assoc]
      exact String.Pos.Raw.isValid_iff_exists_append.mpr ⟨_, _, rfl, rfl⟩
    · rw [hstop]
      exact String.Pos.Raw.isValid_iff_exists_append.mpr ⟨_, _, rfl, rfl⟩

theorem sliceOf_spanning (source : String) : Spanning (·.SliceOf source) where
  origin := ⟨Nat.le_refl _, Nat.zero_le _, String.Pos.Raw.isValid_zero,
    String.Pos.Raw.isValid_zero⟩
  union s t hs ht := by
    rw [Span.union]
    refine ⟨?_, Nat.max_le.mpr ⟨hs.bounded, ht.bounded⟩, ?_, ?_⟩
    · exact Nat.le_trans (Nat.min_le_left _ _) (Nat.le_trans hs.ordered (Nat.le_max_left _ _))
    · rcases Nat.le_total s.start t.start with hle | hle
      · rw [Nat.min_eq_left hle]
        exact hs.start
      · rw [Nat.min_eq_right hle]
        exact ht.start
    · rcases Nat.le_total s.stop t.stop with hle | hle
      · rw [Nat.max_eq_right hle]
        exact ht.stop
      · rw [Nat.max_eq_left hle]
        exact hs.stop

/-- The place is the first byte of a character that begins no token. -/
structure FirstByteOf (s : Span) (source before : String) (c : Char) (after : String) : Prop where
  source_eq : source = before ++ String.singleton c ++ after
  unexpected : Front.read c after.toList = .unexpected
  start_eq : s.start = before.utf8ByteSize
  stop_eq : s.stop = before.utf8ByteSize + 1

theorem FirstByteOf.cuts (h : s.FirstByteOf source before c after) (hc : c.utf8Size = 1) :
    s.Cuts source before (String.singleton c) after where
  source_eq := h.source_eq
  start_eq := h.start_eq
  stop_eq := by rw [h.stop_eq, String.utf8ByteSize_append, String.utf8ByteSize_singleton, hc]

theorem FirstByteOf.stop_le (h : s.FirstByteOf source before c after) :
    s.stop ≤ source.utf8ByteSize := by
  have := c.utf8Size_pos
  rw [h.stop_eq, h.source_eq, String.utf8ByteSize_append, String.utf8ByteSize_append,
    String.utf8ByteSize_singleton]
  omega

theorem FirstByteOf.sliceOf_iff (h : s.FirstByteOf source before c after) :
    s.SliceOf source ↔ c.utf8Size = 1 := by
  refine ⟨fun hslice => ?_, fun hc => sliceOf_iff_cuts.mpr ⟨_, _, _, h.cuts hc⟩⟩
  obtain ⟨front, rest, hfront, hstop⟩ := isValid_iff.mp hslice.stop
  rw [h.stop_eq, ← byteLength_toList] at hstop
  have hsource : before.toList ++ c :: after.toList = front ++ rest := by
    rw [← hfront, h.source_eq]
    simp
  obtain ⟨text, rfl, htext⟩ :=
    append_of_byteLength_le hsource (hstop ▸ Nat.le_add_right _ 1)
  rw [byteLength_append] at hstop
  cases text with
  | nil => simp [byteLength] at hstop
  | cons d text =>
    obtain ⟨rfl, -⟩ := List.cons.inj htext
    have := c.utf8Size_pos
    rw [byteLength] at hstop
    omega

end Span

-- ---------------------------------------------------------------------------
-- Faults of tokens
-- ---------------------------------------------------------------------------

namespace Piece

def LiesIn (source : String) : Piece → Prop
  | .token t => t.span.SliceOf source
  | .unexpected span => ∃ before c after, span.FirstByteOf source before c after
  | .unterminated span => span.SliceOf source

theorem sliceOf_take {before cs : List Char} (n : Nat) (hstart : start = byteLength before) :
    Span.SliceOf ⟨start, start + c.utf8Size + byteLength (cs.take n)⟩
      (String.ofList (before ++ c :: cs)) := by
  have hcuts : Span.Cuts _ _ _ (String.ofList (c :: cs.take n)) (String.ofList (cs.drop n)) :=
    .of_append hstart
  rw [List.cons_append, List.take_append_drop, byteLength, ← Nat.add_assoc] at hcuts
  exact Span.sliceOf_iff_cuts.mpr ⟨_, _, _, hcuts⟩

theorem liesIn_readFrom (start : Nat) (cs : List Char) :
    ∀ before, start = byteLength before →
      ∀ p ∈ readFrom start cs, p.LiesIn (String.ofList (before ++ cs)) := by
  fun_induction readFrom start cs with
  | case1 start =>
    intro before _ p hp
    cases hp
  | case2 start c cs t more hread stop ih =>
    intro before hstart
    refine List.forall_mem_cons.mpr ⟨sliceOf_take more hstart, ?_⟩
    have hnext : stop = byteLength (before ++ c :: cs.take more) := by
      rw [byteLength_append, byteLength, ← hstart, ← Nat.add_assoc]
    have hrest := ih _ hnext
    rwa [List.append_assoc, List.cons_append, List.take_append_drop] at hrest
  | case3 start c cs more hread =>
    intro before hstart p hp
    rw [List.mem_singleton.mp hp]
    exact sliceOf_take more hstart
  | case4 start c cs hread ih =>
    intro before hstart
    have hnext : start + c.utf8Size = byteLength (before ++ [c]) := by
      rw [byteLength_append, byteLength, byteLength, hstart, Nat.add_zero]
    have hrest := ih _ hnext
    rw [List.append_assoc, List.singleton_append] at hrest
    refine List.forall_mem_cons.mpr ⟨⟨String.ofList before, c, String.ofList cs, ?_⟩, hrest⟩
    have hsize := utf8ByteSize_ofList before
    constructor
    · rw [String.singleton_eq_ofList, ← String.ofList_append, ← String.ofList_append,
        List.append_assoc, List.singleton_append]
    · rwa [String.toList_ofList]
    · rw [hsize, hstart]
    · rw [hsize, hstart]

end Piece

-- ---------------------------------------------------------------------------
-- Remarks on a scene
-- ---------------------------------------------------------------------------

namespace Draft

variable {P : Span → Prop} {d : Draft} {s : Section}

/-- A draft that remembers and points at places of a kind only. -/
structure PointsAt (P : Span → Prop) (d : Draft) : Prop where
  ids : ∀ e ∈ d.ids, P e.2
  root : ∀ r, d.root = some r → P r.2
  labels : ∀ w ∈ d.warnings, ∀ l ∈ w.labels, P l.span

theorem pointsAt_empty : PointsAt P {} :=
  ⟨nofun, nofun, nofun⟩

theorem PointsAt.warn {ls : List Diagnostic.Label} (h : d.PointsAt P)
    (hls : ∀ l ∈ ls, P l.span) : (d.warn code message ls help).PointsAt P := by
  refine ⟨h.ids, h.root, fun w hw => ?_⟩
  rcases List.mem_append.mp hw with hw | hw
  · exact h.labels w hw
  · rw [List.mem_singleton.mp hw]
    exact hls

theorem place_getD (hs : ∀ span ∈ s.places, P span) (v : Option (Spanned Value))
    (hv : ∀ x, v = some x → x.span ∈ s.places) : P ((v.map (·.span)).getD s.tag.span) := by
  cases v with
  | none => exact hs _ List.mem_cons_self
  | some x => exact hs _ (hv x rfl)

theorem PointsAt.addResource (h : d.PointsAt P) (hs : ∀ span ∈ s.places, P span) :
    (d.addResource s).PointsAt P := by
  unfold Draft.addResource
  split
  · next path id _ _ _ =>
    have hplace : P (((s.attribute? "id").map (·.span)).getD s.tag.span) := by
      refine place_getD hs _ fun v hv => ?_
      have hid : s.lookup? "id" = some v := by
        rw [Section.lookup?, hv]
        rfl
      exact Section.place_of_lookup? hid
    simp only
    split
    · next first hfirst =>
      refine h.warn (List.forall_mem_cons.mpr ⟨hplace, fun l hl => ?_⟩)
      rw [List.mem_singleton.mp hl]
      exact h.ids _ (mem_of_lookup hfirst)
    · have hids : ∀ e ∈ d.ids ++ [(id, ((s.attribute? "id").map (·.span)).getD s.tag.span)],
          P e.2 := by
        refine List.forall_mem_append.mpr ⟨h.ids, fun e he => ?_⟩
        rw [List.mem_singleton.mp he]
        exact hplace
      split <;> exact ⟨hids, h.root, h.labels⟩
  · exact h

theorem PointsAt.addRoot (h : d.PointsAt P) (hs : ∀ span ∈ s.places, P span) (n : SceneNode) :
    (d.addRoot s n).PointsAt P := by
  have hplace : P (((s.lookup? "name").map (·.span)).getD s.tag.span) :=
    place_getD hs _ fun v hv => Section.place_of_lookup? hv
  simp only [Draft.addRoot]
  split
  · refine ⟨h.ids, ?_, h.labels⟩
    rintro _ ⟨⟩
    exact hplace
  · next node first hroot =>
    refine h.warn (List.forall_mem_cons.mpr ⟨hplace, fun l hl => ?_⟩)
    rw [List.mem_singleton.mp hl]
    exact h.root _ hroot

theorem PointsAt.addBelow (h : d.PointsAt P) (hparent : P parent.span) (n : SceneNode) :
    (d.addBelow n parent).PointsAt P := by
  simp only [Draft.addBelow]
  split
  · exact ⟨h.ids, h.root, h.labels⟩
  · refine h.warn fun l hl => ?_
    rw [List.mem_singleton.mp hl]
    exact hparent

theorem PointsAt.add (h : d.PointsAt P) (hs : ∀ span ∈ s.places, P span) :
    (d.add s).PointsAt P := by
  unfold Draft.add
  split
  · exact h.addResource hs
  · split
    · unfold addNode
      split
      · exact h
      · split
        · exact h.addRoot hs _
        · next hparent => exact h.addBelow (hs _ (Section.place_of_lookup? hparent)) _
    · exact h

theorem PointsAt.foldl {sections : List Section} (h : d.PointsAt P)
    (hs : ∀ s ∈ sections, ∀ span ∈ s.places, P span) : (sections.foldl Draft.add d).PointsAt P := by
  induction sections generalizing d with
  | nil => exact h
  | cons s ss ih =>
    obtain ⟨hfirst, hrest⟩ := List.forall_mem_cons.mp hs
    exact ih (h.add hfirst) hrest

end Draft

-- ---------------------------------------------------------------------------
-- Whatever is reported
-- ---------------------------------------------------------------------------

def Scene.reported (source : String) : List Diagnostic :=
  match read source with
  | .ok (_, warnings) => warnings
  | .error m => m.diagnostics

/-- How a label of a diagnostic lies in the source. -/
structure Diagnostic.LabelIn (source : String) (d : Diagnostic) (l : Label) : Prop where
  ordered : l.span.start ≤ l.span.stop
  bounded : l.span.stop ≤ source.utf8ByteSize
  slice : d.code ≠ some .unexpectedCharacter → l.span.SliceOf source
  /-- The label of an unexpected character has its first byte. -/
  character : d.code = some .unexpectedCharacter → ∃ before c after,
    l.span.FirstByteOf source before c after ∧ (l.span.SliceOf source ↔ c.utf8Size = 1) ∧
      (c.utf8Size = 1 → l.span.Cuts source before (String.singleton c) after)

namespace Diagnostic

variable {d : Diagnostic} {l : Label}

theorem LabelIn.of_slice (h : l.span.SliceOf source) (hcode : d.code ≠ some .unexpectedCharacter) :
    d.LabelIn source l :=
  ⟨h.ordered, h.bounded, fun _ => h, fun hd => absurd hd hcode⟩

theorem LabelIn.of_firstByte (h : l.span.FirstByteOf source before c after)
    (hcode : d.code = some .unexpectedCharacter) : d.LabelIn source l where
  ordered := by rw [h.start_eq, h.stop_eq]; exact Nat.le_succ _
  bounded := h.stop_le
  slice hd := absurd hcode hd
  character _ := ⟨before, c, after, h, h.sliceOf_iff, h.cuts⟩

theorem Remark.code_ne (h : d.Remark) : d.code ≠ some .unexpectedCharacter := by
  intro hcode
  have hid := h.code
  rw [id?, hcode] at hid
  revert hid
  decide

end Diagnostic

theorem Piece.labelIn {p : Piece} (h : p.LiesIn source) (hd : p.diagnostic? = some d) :
    ∀ l ∈ d.labels, d.LabelIn source l := by
  cases p with
  | token t => cases hd
  | unexpected span =>
    cases hd
    obtain ⟨before, c, after, hspan⟩ := h
    intro l hl
    rw [List.mem_singleton.mp hl]
    exact .of_firstByte hspan rfl
  | unterminated span =>
    cases hd
    intro l hl
    rw [List.mem_singleton.mp hl]
    exact .of_slice h nofun

theorem Piece.liesIn (source : String) :
    ∀ p ∈ readFrom 0 source.toList, p.LiesIn source := by
  have h := liesIn_readFrom 0 source.toList [] rfl
  rwa [List.nil_append, String.ofList_toList] at h

theorem Tokens.placed (h : Tokens.read source = .ok ts) : Placed (·.SliceOf source) ts := by
  rw [read_eq] at h
  simp only at h
  split at h
  · cases h
    intro t ht
    obtain ⟨p, hp, htoken⟩ := List.mem_filterMap.mp ht
    have hlies := Piece.liesIn source p hp
    cases p with
    | token t => cases htoken; exact hlies
    | unexpected | unterminated => cases htoken
  · cases h

theorem Section.code_ne (h : Section.ofTokens ts = .error d) :
    d.code ≠ some .unexpectedCharacter := by
  rw [Section.ofTokens] at h
  cases hread : readSections ts with
  | ok sections =>
    rw [hread] at h
    cases h
  | error f =>
    rw [hread, mapError_error] at h
    cases h
    rw [Grammar.code_diagnostic]
    split <;> decide

theorem Scene.labels_slice (source : String) :
    ∀ d ∈ reported source, ∀ l ∈ d.labels, d.LabelIn source l := by
  have hspanning := Span.sliceOf_spanning source
  intro d hd l hl
  rw [reported] at hd
  cases hread : read source with
  | ok made =>
    obtain ⟨sections, hsections, rfl⟩ := map_ok.mp hread
    obtain ⟨ts, hts, hsections⟩ := Grammar.readAll_ok.mp hsections
    rw [hread] at hd
    have hplaces := Grammar.ofTokens_places hspanning (Tokens.placed hts) hsections
    have hpoints := Draft.pointsAt_empty.foldl hplaces
    exact .of_slice (hpoints.labels d hd l hl) (remarks_ofSections sections d hd).code_ne
  | error m =>
    rw [hread] at hd
    rcases read_error hread with htokens | ⟨ts, d', hts, hsections, rfl⟩
    · simp only [Tokens.read_error htokens] at hd
      obtain ⟨p, hp, hpiece⟩ := List.mem_filterMap.mp hd
      exact Piece.labelIn (Piece.liesIn source p hp) hpiece l hl
    · obtain rfl := List.mem_singleton.mp hd
      have hslice := Grammar.ofTokens_labels hspanning (Tokens.placed hts) hsections
      exact .of_slice (hslice l hl) (Section.code_ne hsections)

def euroReport : Diagnostic where
  severity := .error
  message := "unexpected character"
  code := some .unexpectedCharacter
  labels := [⟨⟨0, 1⟩, "unexpected character", true⟩]

theorem Scene.mem_reported_euro : euroReport ∈ reported "€" := by decide +kernel

theorem Scene.labels_slice_euro : ∃ l ∈ euroReport.labels, l.span = ⟨0, 1⟩ ∧
    euroReport ∈ reported "€" ∧ euroReport.LabelIn "€" l :=
  ⟨_, List.mem_cons_self, rfl, mem_reported_euro,
    labels_slice "€" _ mem_reported_euro _ List.mem_cons_self⟩

theorem Scene.not_labels_slice : ¬ ∀ source, ∀ d ∈ reported source, ∀ l ∈ d.labels,
    l.span.SliceOf source := by
  intro hall
  have hslice := hall "€" _ mem_reported_euro _ List.mem_cons_self
  exact absurd hslice.stop (by decide +kernel)

end SceneDiagram
