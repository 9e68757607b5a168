import SceneDiagram.Generation
import SceneDiagram.Proofs.Section.Reading
import SceneDiagram.Proofs.Token.Tiling
import SceneDiagram.Report

/-!
# What is reported

`run_reports`: each phase reports its own kind of diagnostic. A text that is malformed has
faults of its tokens, each behind the one before, or else one fault of its sections; of a
scene that is read there are warnings only. A pass that stops at a malformed scene reports
every diagnostic of it.
-/

namespace SceneDiagram

open Text

namespace Diagnostic

def id? (d : Diagnostic) : Option String := d.code.map (·.id)

def start? (d : Diagnostic) : Option Nat := (d.labels.find? (·.primary)).map (·.span.start)

/-- Faults of tokens, in the order of the text. A quoted text that does not end comes last. -/
structure Lexical (ds : List Diagnostic) : Prop where
  codes : ∀ d ∈ ds, d.id? = some "E001" ∨ d.id? = some "E002"
  starts : ∃ starts : List Nat, ds.map (·.start?) = starts.map some ∧ starts.Pairwise (· < ·)
  last : ∀ d ∈ ds.dropLast, d.id? ≠ some "E001"

def Syntactic (ds : List Diagnostic) : Prop :=
  ∃ d, ds = [d] ∧ (d.id? = some "E100" ∨ d.id? = some "E101")

structure Remark (d : Diagnostic) : Prop where
  severity : d.severity = .warning
  code : d.id? = some "E200" ∨ d.id? = some "E201" ∨ d.id? = some "E202"

theorem isError_iff {d : Diagnostic} : d.isError ↔ d.severity = .error := beq_iff_eq

theorem settle_remarks (h : ∀ d ∈ ds, d.Remark) : settle ds = .ok ds := by
  have hnone : ds.any isError = false := by
    rw [List.any_eq_false]
    intro d hd herror
    rw [isError_iff, (h d hd).severity] at herror
    cases herror
  rw [settle, hnone]
  rfl

end Diagnostic

-- ---------------------------------------------------------------------------
-- Faults of tokens
-- ---------------------------------------------------------------------------

namespace Piece

theorem id?_diagnostic? {p : Piece} (h : p.diagnostic? = some d) :
    d.id? = some "E001" ∨ d.id? = some "E002" := by
  cases p <;> cases h
  · exact .inr rfl
  · exact .inl rfl

theorem Tile.starts (h : Tile start cs ps) : ∃ starts : List Nat,
    (ps.filterMap diagnostic?).map (·.start?) = starts.map some ∧ starts.Pairwise (· < ·) ∧
      ∀ n ∈ starts, start ≤ n := by
  induction h with
  | nil => exact ⟨[], rfl, .nil, by simp⟩
  | token _ _ _ ih =>
    obtain ⟨starts, heq, hincreasing, hle⟩ := ih
    exact ⟨starts, heq, hincreasing, fun n hn => Nat.le_trans (Nat.le_add_right ..) (hle n hn)⟩
  | @unexpected c start rest ps _ _ _ ih =>
    obtain ⟨starts, heq, hincreasing, hle⟩ := ih
    have hlt : ∀ n ∈ starts, start < n := fun n hn =>
      Nat.lt_of_lt_of_le (Nat.lt_add_of_pos_right c.utf8Size_pos) (hle n hn)
    refine ⟨start :: starts, ?_, .cons hlt hincreasing, ?_⟩
    · rw [List.map_cons, ← heq]
      rfl
    · exact List.forall_mem_cons.mpr ⟨Nat.le_refl _, fun n hn => Nat.le_of_lt (hlt n hn)⟩
  | @unterminated _ _ w _ start => exact ⟨[start], rfl, by simp, by simp⟩

theorem Tile.last (h : Tile start cs ps) :
    ∀ d ∈ (ps.filterMap diagnostic?).dropLast, d.id? ≠ some "E001" := by
  induction h with
  | nil => simp
  | token _ _ _ ih => exact ih
  | unexpected _ _ _ ih =>
    simp only [List.filterMap_cons, diagnostic?]
    generalize List.filterMap _ _ = ds at ih ⊢
    cases ds with
    | nil => simp
    | cons d ds =>
      rw [List.dropLast_cons_cons]
      exact List.forall_mem_cons.mpr ⟨by simp [Diagnostic.id?, Diagnostic.Code.id], ih⟩
  | unterminated => simp [diagnostic?]

end Piece

/-- What a malformed text is reported with comes from one phase. -/
structure Malformed.OfOnePhase (m : Malformed) : Prop where
  reported : m.diagnostics ≠ []
  severity : ∀ d ∈ m.diagnostics, d.severity = .error
  phase : Diagnostic.Lexical m.diagnostics ∨ Diagnostic.Syntactic m.diagnostics

theorem Tokens.ofOnePhase (h : Tokens.read source = .error m) : m.OfOnePhase := by
  have htile := Piece.tile_readFrom 0 source.toList
  obtain ⟨starts, hstarts, hincreasing, -⟩ := htile.starts
  have hlast := htile.last
  rw [Tokens.read_eq] at h
  simp only at h
  split at h
  · cases h
  · next hne =>
    cases h
    refine ⟨hne, fun d hd => ?_, .inl ⟨fun d hd => ?_, ⟨starts, hstarts, hincreasing⟩, hlast⟩⟩
    all_goals obtain ⟨p, -, hp⟩ := List.mem_filterMap.mp hd
    · exact Diagnostic.isError_iff.mp (Piece.isError_diagnostic? hp)
    · exact Piece.id?_diagnostic? hp

-- ---------------------------------------------------------------------------
-- Faults of sections
-- ---------------------------------------------------------------------------

theorem Section.ofOnePhase (h : Section.ofTokens ts = .error d) :
    Malformed.OfOnePhase ⟨[d]⟩ := by
  rw [Section.ofTokens] at h
  cases hread : readSections ts with
  | ok sections =>
    rw [hread] at h
    cases h
  | error f =>
    rw [hread, mapError_error] at h
    cases h
    have hseverity : (f.diagnostic ts).severity = .error := by
      unfold Fault.diagnostic
      split <;> rfl
    refine ⟨List.cons_ne_nil _ _, by simpa using hseverity, .inr ⟨_, rfl, ?_⟩⟩
    rw [Diagnostic.id?, Grammar.code_diagnostic]
    cases skipTrivia f.rest with
    | nil => exact .inr rfl
    | cons t rest => exact .inl rfl

-- ---------------------------------------------------------------------------
-- Remarks on a scene
-- ---------------------------------------------------------------------------

namespace Draft

def OnlyRemarks (d : Draft) : Prop := ∀ w ∈ d.warnings, w.Remark

theorem OnlyRemarks.warn {d : Draft} (h : d.OnlyRemarks)
    (hcode : code.id = "E200" ∨ code.id = "E201" ∨ code.id = "E202") :
    (d.warn code message labels help).OnlyRemarks := by
  intro w hw
  rcases List.mem_append.mp hw with hw | hw
  · exact h w hw
  · cases List.mem_singleton.mp hw
    exact ⟨rfl, by simpa [Diagnostic.id?] using hcode⟩

theorem OnlyRemarks.addResource {d : Draft} (h : d.OnlyRemarks) (s : Section) :
    (d.addResource s).OnlyRemarks := by
  unfold Draft.addResource
  split
  · split
    · exact h.warn (.inr (.inr rfl))
    · split <;> exact h
  · exact h

theorem OnlyRemarks.addNode {d : Draft} (h : d.OnlyRemarks) (s : Section) :
    (d.addNode s).OnlyRemarks := by
  unfold Draft.addNode
  split
  · exact h
  · split
    · unfold addRoot
      split
      · exact h
      · exact h.warn (.inr (.inl rfl))
    · simp only [addBelow]
      split
      · exact h
      · exact h.warn (.inl rfl)

theorem OnlyRemarks.add {d : Draft} (h : d.OnlyRemarks) (s : Section) : (d.add s).OnlyRemarks := by
  unfold Draft.add
  split
  · exact h.addResource s
  · split
    · exact h.addNode s
    · exact h

theorem OnlyRemarks.foldl {d : Draft} (h : d.OnlyRemarks) (sections : List Section) :
    (sections.foldl Draft.add d).OnlyRemarks := by
  induction sections generalizing d with
  | nil => exact h
  | cons s sections ih => exact ih (h.add s)

end Draft

namespace Scene

theorem remarks_ofSections (sections : List Section) : ∀ w ∈ (ofSections sections).2, w.Remark :=
  Draft.OnlyRemarks.foldl (by simp [Draft.OnlyRemarks]) sections

/-- Elaboration as a phase like the others, which fails if it has reported an error. -/
def build (sections : List Section) : Except Malformed (Scene × List Diagnostic) := do
  let d := sections.foldl Draft.add {}
  let warnings ← Diagnostic.settle d.warnings
  return (d.scene, warnings)

theorem build_ok (sections : List Section) : build sections = .ok (ofSections sections) := by
  have hsettle := Diagnostic.settle_remarks (remarks_ofSections sections)
  rw [ofSections] at hsettle
  rw [build, hsettle]
  rfl

theorem read_eq_build (source : String) : read source = Section.readAll source >>= build := by
  rw [read]
  cases Section.readAll source with
  | error m => rfl
  | ok sections => exact (build_ok sections).symm

theorem read_error (h : read source = .error m) : Tokens.read source = .error m ∨
    ∃ ts d, Tokens.read source = .ok ts ∧ Section.ofTokens ts = .error d ∧ m = ⟨[d]⟩ := by
  rw [read, Section.readAll] at h
  cases htokens : Tokens.read source with
  | error m₁ =>
    rw [htokens] at h
    cases h
    exact .inl rfl
  | ok ts =>
    rw [htokens] at h
    change ((Section.ofTokens ts).mapError fun d => ⟨[d]⟩).map ofSections = .error m at h
    cases hsections : Section.ofTokens ts with
    | ok sections =>
      rw [hsections] at h
      cases h
    | error d =>
      rw [hsections] at h
      cases h
      exact .inr ⟨ts, d, rfl, hsections, rfl⟩

theorem ofOnePhase (h : read source = .error m) : m.OfOnePhase := by
  rcases read_error h with htokens | ⟨ts, d, -, hsections, rfl⟩
  · exact Tokens.ofOnePhase htokens
  · exact Section.ofOnePhase hsections

end Scene

-- ---------------------------------------------------------------------------
-- A pass
-- ---------------------------------------------------------------------------

namespace Generation

variable {check : Except Failure Unit}

theorem malformed_of_addSource (h : addSource r source = .error (.malformed cause text path)) :
    source = ⟨path, text⟩ ∧ Scene.read text = .error cause := by
  unfold addSource at h
  split at h
  · next hread =>
    cases h
    exact ⟨rfl, hread⟩
  · cases h

theorem malformed_of_addSources {sources : List SceneSource}
    (hcheck : check ≠ .error (.malformed cause text path))
    (h : sources.foldlM (fun r source => do check; addSource r source) r =
      .error (.malformed cause text path)) :
    ⟨path, text⟩ ∈ sources ∧ Scene.read text = .error cause := by
  induction sources generalizing r with
  | nil => cases h
  | cons source sources ih =>
    rw [List.foldlM_cons, bind_error] at h
    rcases h with h | ⟨r₁, -, h⟩
    · rcases bind_error.mp h with h | ⟨-, -, h⟩
      · exact absurd h hcheck
      · obtain ⟨rfl, hread⟩ := malformed_of_addSource h
        exact ⟨List.mem_cons_self, hread⟩
    · obtain ⟨hmem, hread⟩ := ih h
      exact ⟨List.mem_cons_of_mem source hmem, hread⟩

theorem malformed_of_run (hcheck : check ≠ .error (.malformed cause text path))
    (h : run config project check = .error (.malformed cause text path)) :
    ⟨path, text⟩ ∈ project.scenes ∧ Scene.read text = .error cause := by
  rw [run, bind_error] at h
  rcases h with h | ⟨r, -, h⟩
  · rcases bind_error.mp h with h | ⟨r, -, h⟩
    · exact malformed_of_addSources hcheck h
    · cases h
  · rcases bind_error.mp h with h | ⟨-, -, h⟩
    · exact absurd h hcheck
    · simp only at h
      split at h <;> cases h

theorem check_ne_malformed (signals : Signals) (token : CancelToken) :
    signals.check token ≠ .error (.malformed cause text path) := by
  unfold Signals.check
  split <;> exact nofun

/-- Every phase reports its own kind of diagnostic, elaboration none that stops it, and a
pass that stops at a malformed scene reports each diagnostic of it, at least one. -/
theorem run_reports (source : String) (sections : List Section) (config : Config)
    (project : Project) (signals : Signals) (token : CancelToken) :
    (match Scene.read source with
      | .error m => m.OfOnePhase
      | .ok (_, warnings) => ∀ w ∈ warnings, w.Remark) ∧
    Scene.build sections = .ok (Scene.ofSections sections) ∧
    Scene.read source = Section.readAll source >>= Scene.build ∧
    ∀ cause text path,
      run config project (signals.check token) = .error (.malformed cause text path) →
        (⟨path, text⟩ ∈ project.scenes ∧ Scene.read text = .error cause) ∧
        (Failure.malformed cause text path).reports = cause.diagnostics.map (.diagnostic · path) ∧
        (Failure.malformed cause text path).reports ≠ [] := by
  refine ⟨?_, Scene.build_ok sections, Scene.read_eq_build source, ?_⟩
  · cases hread : Scene.read source with
    | error m => exact Scene.ofOnePhase hread
    | ok made =>
      obtain ⟨sections, -, rfl⟩ := map_ok.mp hread
      exact Scene.remarks_ofSections sections
  · intro cause text path h
    have hmalformed := malformed_of_run (check_ne_malformed signals token) h
    refine ⟨hmalformed, rfl, ?_⟩
    rw [Failure.reports, Ne, List.map_eq_nil_iff]
    exact (Scene.ofOnePhase hmalformed.2).reported

def brokenProject : Project where
  dir := ⟨"/p"⟩
  scenes := [⟨⟨"a.tscn"⟩, "?\""⟩]

theorem run_reports_broken : ∃ cause text path,
    run {} brokenProject (({} : Signals).check ⟨0⟩) = .error (.malformed cause text path) ∧
      (⟨path, text⟩ ∈ brokenProject.scenes ∧ Scene.read text = .error cause) ∧
      (Failure.malformed cause text path).reports = cause.diagnostics.map (.diagnostic · path) ∧
      (Failure.malformed cause text path).reports ≠ [] := by
  have hnone : (Scene.read "?\"").toOption.isNone := by decide +kernel
  have hcheck : ({} : Signals).check ⟨0⟩ = .ok () := rfl
  cases hread : Scene.read "?\"" with
  | ok made => simp [hread, Except.toOption] at hnone
  | error cause =>
    have hadd : addSource { dir := ⟨"/p"⟩ } ⟨⟨"a.tscn"⟩, "?\""⟩ =
        .error (.malformed cause "?\"" ⟨"a.tscn"⟩) := by rw [addSource, hread]
    have hregister : register brokenProject (({} : Signals).check ⟨0⟩) =
        .error (.malformed cause "?\"" ⟨"a.tscn"⟩) := by
      rw [register, brokenProject, List.foldlM_cons, hcheck]
      change ((addSource _ _ >>= _) >>= _) = _
      rw [hadd]
      rfl
    have hrun : run {} brokenProject (({} : Signals).check ⟨0⟩) =
        .error (.malformed cause "?\"" ⟨"a.tscn"⟩) := by
      rw [run, hregister]
      rfl
    exact ⟨cause, _, _, hrun, (run_reports "" [] {} brokenProject {} ⟨0⟩).2.2.2 _ _ _ hrun⟩

end Generation
end SceneDiagram
