import Mathlib.Data.List.Forall2
import SceneDiagram.Proofs.Token.Spelling

/-!
# The pieces of a text

`Piece.tile_readFrom`: tokens, characters that begin none and a quoted text without
end take up the text piece by piece, without gap or overlap. In a text without fault
that leaves `Tokens.Cover`, and a text is split into no other tokens than those that
cover it (`Tokens.read_ok`). `Tokens.read_lossless` puts the same in terms of places
and of what is written there.
-/

namespace SceneDiagram

open Text

-- ---------------------------------------------------------------------------
-- Bytes
-- ---------------------------------------------------------------------------

theorem byteLength_append (v w : List Char) :
    byteLength (v ++ w) = byteLength v + byteLength w := by
  induction v with
  | nil => simp [byteLength]
  | cons c v ih => rw [List.cons_append, byteLength, byteLength, ih, Nat.add_assoc]

theorem byteLength_pos (h : w ≠ []) : 0 < byteLength w := by
  obtain ⟨c, w, rfl⟩ := List.exists_cons_of_ne_nil h
  exact Nat.add_pos_left c.utf8Size_pos _

theorem append_inj_of_byteLength {v w v' w' : List Char} (h : v ++ w = v' ++ w')
    (hlen : byteLength v = byteLength v') : v = v' ∧ w = w' := by
  induction v generalizing v' with
  | nil =>
    cases v' with
    | nil => exact ⟨rfl, h⟩
    | cons c v' => exact absurd hlen (Nat.ne_of_lt (byteLength_pos (List.cons_ne_nil c v')))
  | cons c v ih =>
    cases v' with
    | nil => exact absurd hlen.symm (Nat.ne_of_lt (byteLength_pos (List.cons_ne_nil c v)))
    | cons d v' =>
      obtain ⟨rfl, hbehind⟩ := List.cons.inj h
      obtain ⟨rfl, rfl⟩ := ih hbehind (Nat.add_left_cancel hlen)
      exact ⟨rfl, rfl⟩

theorem utf8ByteSize_ofList (w : List Char) : (String.ofList w).utf8ByteSize = byteLength w := by
  induction w with
  | nil => rfl
  | cons c w ih =>
    have : String.ofList (c :: w) = String.singleton c ++ String.ofList w := by
      rw [String.singleton_eq_ofList, ← String.ofList_append]
      rfl
    rw [this, String.utf8ByteSize_append, String.utf8ByteSize_singleton, ih, byteLength]

theorem byteLength_toList (s : String) : byteLength s.toList = s.utf8ByteSize := by
  rw [← utf8ByteSize_ofList, String.ofList_toList]

-- ---------------------------------------------------------------------------
-- Pieces
-- ---------------------------------------------------------------------------

namespace Piece

/-- The pieces take up a text from the byte `start` on, one behind the other. The last
of them may be a quoted text that does not end; a lone backslash that it breaks off
at is part of it, though not of the place that is reported. -/
inductive Tile : Nat → List Char → List Piece → Prop
  | nil : Tile start [] []
  | token : w ≠ [] → Spelling t w rest → Tile (start + byteLength w) rest ps →
      Tile start (w ++ rest) (.token ⟨t, ⟨start, start + byteLength w⟩⟩ :: ps)
  | unexpected : c ≠ '\n' → isInlineBlank c = false → Tile (start + c.utf8Size) rest ps →
      Tile start (c :: rest) (.unexpected ⟨start, start + 1⟩ :: ps)
  | unterminated {kind : Quote} : QuotedBody.Spells raw text → w = kind.opening ++ raw →
      rest = [] ∨ rest = ['\\'] →
      Tile start (w ++ rest) [.unterminated ⟨start, start + byteLength w⟩]

theorem tile_readFrom (start : Nat) (cs : List Char) : Tile start cs (readFrom start cs) := by
  fun_induction readFrom start cs with
  | case1 start => exact .nil
  | case2 start c cs t more hread stop ih =>
    obtain ⟨w, rest, rfl, rfl, hspell⟩ := Front.exists_of_token hread
    have hstop : stop = start + byteLength (c :: w) := by
      change start + c.utf8Size + byteLength ((w ++ rest).take w.length) = _
      rw [List.take_left, byteLength, Nat.add_assoc]
    rw [hstop] at ih ⊢
    rw [List.drop_left] at ih ⊢
    exact .token (List.cons_ne_nil c w) hspell ih
  | case3 start c cs more hread =>
    obtain ⟨w, rest, rfl, rfl, hrest, kind, raw, text, heq, hraw⟩ :=
      Front.exists_of_unterminated hread
    rw [List.take_left, Nat.add_assoc]
    exact .unterminated hraw heq hrest
  | case4 start c cs hread ih =>
    obtain ⟨hline, hblank⟩ := Front.of_unexpected hread
    exact .unexpected hline hblank ih

theorem Tile.length_le (h : Tile start cs ps) : ps.length ≤ cs.length := by
  induction h with
  | nil => exact Nat.le_refl _
  | token hne _ _ ih =>
    have := List.length_pos_of_ne_nil hne
    simp only [List.length_append, List.length_cons]
    omega
  | unexpected _ _ _ ih => exact Nat.succ_le_succ ih
  | @unterminated raw _ w rest _ kind _ heq _ =>
    have : 0 < w.length := by cases kind <;> simp [heq, Quote.opening]
    rw [List.length_append]
    exact Nat.le_add_right_of_le this

theorem isError_diagnostic? {p : Piece} (h : p.diagnostic? = some d) : d.isError := by
  cases p <;> cases h <;> rfl

end Piece

namespace Tokens

/-- Tokens take up a text from the byte `start` on, one behind the other. -/
inductive Cover : Nat → List Char → Tokens → Prop
  | nil : Cover start [] []
  | cons : w ≠ [] → Spelling t w rest → Cover (start + byteLength w) rest ts →
      Cover start (w ++ rest) (⟨t, ⟨start, start + byteLength w⟩⟩ :: ts)

theorem Cover.readFrom_eq (h : Cover start cs ts) : Piece.readFrom start cs = ts.map .token := by
  induction h with
  | nil => rw [Piece.readFrom, List.map_nil]
  | @cons w t rest start ts hne hspell _ ih =>
    obtain ⟨c, w, rfl⟩ := List.exists_cons_of_ne_nil hne
    have hstop : start + c.utf8Size + byteLength w = start + byteLength (c :: w) := by
      rw [byteLength, Nat.add_assoc]
    rw [List.cons_append, Piece.readFrom, hspell.read]
    simp only [List.take_left, List.drop_left, hstop]
    rw [ih, List.map_cons]

theorem cover_of_tile (h : Piece.Tile start cs ps) (hps : ps.filterMap Piece.diagnostic? = []) :
    Cover start cs (ps.filterMap Piece.token?) := by
  induction h with
  | nil => exact .nil
  | token hne hspell _ ih => exact .cons hne hspell (ih hps)
  | unexpected => cases hps
  | unterminated => cases hps

theorem read_eq (source : String) :
    read source =
      let pieces := Piece.readFrom 0 source.toList
      if pieces.filterMap Piece.diagnostic? = [] then .ok (pieces.filterMap Piece.token?)
      else .error ⟨pieces.filterMap Piece.diagnostic?⟩ := by
  rw [read]
  generalize Piece.readFrom 0 source.toList = pieces
  have herror : ∀ d ∈ pieces.filterMap Piece.diagnostic?, d.isError := by
    intro d hd
    obtain ⟨p, -, hp⟩ := List.mem_filterMap.mp hd
    exact Piece.isError_diagnostic? hp
  simp only
  cases hds : pieces.filterMap Piece.diagnostic? with
  | nil => rfl
  | cons d ds =>
    rw [hds] at herror
    simp [Diagnostic.settle, herror d List.mem_cons_self]

/-- A text is split into tokens exactly if they take it up. -/
theorem read_ok : read source = .ok ts ↔ Cover 0 source.toList ts := by
  rw [read_eq]
  simp only
  constructor
  · intro h
    split at h
    · next hnone =>
      cases h
      exact cover_of_tile (Piece.tile_readFrom 0 source.toList) hnone
    · cases h
  · intro h
    simp [h.readFrom_eq, List.filterMap_map, Function.comp_def, Piece.diagnostic?, Piece.token?]

theorem read_error (h : read source = .error m) :
    m.diagnostics = (Piece.readFrom 0 source.toList).filterMap Piece.diagnostic? := by
  rw [read_eq] at h
  simp only at h
  split at h <;> cases h
  rfl

end Tokens

-- ---------------------------------------------------------------------------
-- Places
-- ---------------------------------------------------------------------------

/-- Places that follow each other without gap from `a` to `b`, none of them empty. -/
inductive Span.Chain : Nat → Nat → List Span → Prop
  | nil : Chain a a []
  | cons : a < b → Chain b c spans → Chain a c (⟨a, b⟩ :: spans)

/-- The bytes of `source` at the place are those of `text`, between `before` and `after`. -/
structure Span.Cuts (s : Span) (source before text after : String) : Prop where
  source_eq : source = before ++ text ++ after
  start_eq : s.start = before.utf8ByteSize
  stop_eq : s.stop = (before ++ text).utf8ByteSize

theorem Span.Cuts.of_append {start : Nat} (hstart : start = byteLength before) :
    Cuts ⟨start, start + byteLength w⟩ (String.ofList (before ++ (w ++ rest)))
      (String.ofList before) (String.ofList w) (String.ofList rest) where
  source_eq := by rw [← String.ofList_append, ← String.ofList_append, List.append_assoc]
  start_eq := by rw [utf8ByteSize_ofList, hstart]
  stop_eq := by rw [← String.ofList_append, utf8ByteSize_ofList, byteLength_append, hstart]

theorem Span.Cuts.text_eq {s : Span} (h : s.Cuts source before text after)
    (h' : s.Cuts source before' text' after') : text = text' := by
  have hsource := congrArg String.toList (h.source_eq.symm.trans h'.source_eq)
  have hstart := h.start_eq.symm.trans h'.start_eq
  have hstop := h.stop_eq.symm.trans h'.stop_eq
  rw [← byteLength_toList, ← byteLength_toList] at hstart hstop
  simp only [String.toList_append] at hsource hstop
  obtain ⟨hfront, -⟩ := append_inj_of_byteLength hsource hstop
  exact String.toList_inj.mp (append_inj_of_byteLength hfront hstart).2

/-- What is written where a token stands. -/
def Token.Written (before text after : String) : Token → Prop
  | .quoted kind s => ∃ raw, text = kind.mark ++ "\"" ++ raw ++ "\"" ∧
      QuotedBody.Spells raw.toList s.toList
  | .number x => Number.read? (text ++ after).toList = some (x, text.length)
  | .word s => text = s
  | .punctuation p => text = p.char.toString
  | .comment s => text = ";" ++ s ∧ '\n' ∉ text.toList
  | .blank => (∀ c ∈ text.toList, isInlineBlank c) ∧
      (∀ c ∈ before.toList.getLast?, isInlineBlank c = false) ∧
      ∀ c ∈ after.toList.head?, isInlineBlank c = false
  | .newline => text = "\n"

/-- Not both sides of a cut are white space of one line. -/
def Parted (before after : List Char) : Prop :=
  ∀ c ∈ before.getLast?, ∀ d ∈ after.head?, isInlineBlank c → isInlineBlank d = false

theorem parted_of_last (hw : ∀ c ∈ w.getLast?, isInlineBlank c = false) : Parted w rest := by
  intro c hc d _ hblank
  rw [hw c hc] at hblank
  cases hblank

theorem parted_of_solid (hw : ∀ c ∈ w, isBlank c = false) : Parted w rest :=
  parted_of_last fun c hc => by
    rw [isInlineBlank, hw c (List.mem_of_getLast? hc), Bool.false_and]

theorem Parted.of_append (h : Parted w rest) (hne : w ≠ []) : Parted (v ++ w) rest := by
  intro c hc
  rw [List.getLast?_append_of_ne_nil _ hne] at hc
  exact h c hc

theorem Spelling.parted (h : Spelling t w rest) : Parted w rest := by
  cases h with
  | comment _ hrest =>
    rintro c - d hd -
    rw [hrest d hd]
    rfl
  | quoted => exact parted_of_last (by simp; decide)
  | number _ hread => exact parted_of_solid (isBlank_of_number hread)
  | word hc hw => exact parted_of_solid (isBlank_of_word hc hw)
  | @punctuation p =>
    refine parted_of_last ?_
    cases p <;> simp <;> decide
  | newline => exact parted_of_last (by simp; decide)
  | blank _ _ hrest => exact fun _ _ d hd _ => hrest d hd

theorem Spelling.written (h : Spelling t w rest) (hparted : Parted before (w ++ rest)) :
    t.Written (String.ofList before) (String.ofList w) (String.ofList rest) := by
  cases h with
  | @comment line _ hline _ =>
    refine ⟨by rw [← String.toList_inj]; simp, ?_⟩
    rw [String.toList_ofList, List.mem_cons, not_or]
    exact ⟨by decide, fun h => hline _ h rfl⟩
  | @quoted raw text kind _ hraw =>
    refine ⟨String.ofList raw, ?_, by simpa using hraw⟩
    rw [← String.toList_inj, Quote.opening_eq]
    simp
  | number _ hread => simpa [Token.Written] using hread
  | word => rfl
  | @punctuation p => exact String.singleton_eq_ofList.symm
  | newline => rfl
  | blank hne hw hrest =>
    obtain ⟨d, w, rfl⟩ := List.exists_cons_of_ne_nil hne
    refine ⟨by simpa using hw, fun c hc => Bool.eq_false_iff.mpr fun hblank => ?_,
      by simpa using hrest⟩
    rw [String.toList_ofList] at hc
    have := hparted c hc d rfl hblank
    rw [hw d List.mem_cons_self] at this
    cases this

namespace Tokens

theorem Cover.slices (h : Cover start cs ts) (hstart : start = byteLength before)
    (hparted : Parted before cs) :
    Span.Chain start (start + byteLength cs) (ts.map (·.span)) ∧
      ∃ slices : List String, String.join slices = String.ofList cs ∧
        List.Forall₂ (fun t text => ∃ v w, t.span.Cuts (String.ofList (before ++ cs)) v text w ∧
          t.value.Written v text w) ts slices := by
  induction h generalizing before with
  | nil => exact ⟨.nil, [], rfl, .nil⟩
  | @cons w t rest start _ hne hspell _ ih =>
    have hnext : start + byteLength w = byteLength (before ++ w) := by
      rw [byteLength_append, hstart]
    obtain ⟨hchain, slices, hjoin, hslices⟩ := ih hnext (hspell.parted.of_append hne)
    refine ⟨?_, String.ofList w :: slices, ?_,
      .cons ⟨_, _, .of_append hstart, hspell.written hparted⟩ ?_⟩
    · rw [byteLength_append, ← Nat.add_assoc]
      exact .cons (Nat.lt_add_of_pos_right (byteLength_pos hne)) hchain
    · rw [String.join_cons, hjoin, String.ofList_append]
    · rwa [List.append_assoc] at hslices

theorem read_slices (h : read source = .ok ts) :
    Span.Chain 0 source.utf8ByteSize (ts.map (·.span)) ∧
      ∃ slices : List String, String.join slices = source ∧
        List.Forall₂ (fun t text => ∃ before after,
          t.span.Cuts source before text after ∧ t.value.Written before text after) ts slices := by
  have hparted : Parted [] source.toList := fun _ hc => nomatch hc
  have hslices := (read_ok.mp h).slices rfl hparted
  rwa [Nat.zero_add, byteLength_toList, List.nil_append, String.ofList_toList] at hslices

/-- The tokens of a text take it up from its first byte to its last, and what stands at
the place of each is how it is written. Where the text has faults, what is reported are
the pieces that are no tokens. -/
theorem read_lossless (source : String) :
    (Piece.readFrom 0 source.toList).length ≤ source.length ∧
    match Tokens.read source with
    | .ok ts => Span.Chain 0 source.utf8ByteSize (ts.map (·.span)) ∧
      ∃ slices : List String, String.join slices = source ∧
        List.Forall₂ (fun t text => ∃ before after,
          t.span.Cuts source before text after ∧ t.value.Written before text after) ts slices
    | .error m => Piece.Tile 0 source.toList (Piece.readFrom 0 source.toList) ∧
      m.diagnostics = (Piece.readFrom 0 source.toList).filterMap Piece.diagnostic? := by
  have htile := Piece.tile_readFrom 0 source.toList
  refine ⟨htile.length_le, ?_⟩
  cases hread : Tokens.read source with
  | ok ts => exact read_slices hread
  | error m => exact ⟨htile, read_error hread⟩

end Tokens

end SceneDiagram
