import SceneDiagram.Disk
import SceneDiagram.Proofs.Path.Trail

/-!
# File names

The name that a path ends with is the last step of its trail, and what its text
ends with behind the last slash where the path does not ask for a folder
(`ending_eq_of_fileName?`).
-/

namespace SceneDiagram

open Text

namespace Path

variable {p base : Path} {n : String}

theorem getLast?_components (p : Path) :
    p.components.getLast? = some (.name n) ↔ p.trail.getLast? = some (.name n) := by
  rw [components_eq, List.getLast?_append]
  cases h : p.trail.getLast? with
  | some c => simp
  | none =>
    unfold front
    split
    · simp
    · split <;> simp

theorem fileName?_eq_some : p.fileName? = some n ↔ p.trail.getLast? = some (.name n) := by
  rw [← getLast?_components, fileName?]
  cases p.components.getLast? with
  | none => simp
  | some c => cases c <;> simp

theorem getLast?_steps_resolve (h : p.fileName? = some n) (base : Path) :
    (base.resolve p).components.getLast? = some (.name n) := by
  rw [getLast?_components]
  rw [fileName?_eq_some] at h
  by_cases hp : p.isAbsolute
  · rwa [resolve_of_isAbsolute base hp]
  · rw [trail_resolve base hp, List.getLast?_append, h]
    rfl

theorem getLast?_reach (h : steps.getLast? = some (.name n)) (place : List String) :
    (reach place steps).getLast? = some n := by
  obtain ⟨lead, rfl⟩ := List.getLast?_eq_some_iff.mp h
  simp [reach_append, reach]

theorem exists_text_resolve (base p : Path) : ∃ lead, (base.resolve p).text = lead ++ p.text := by
  unfold resolve
  split
  · exact ⟨"", by simp⟩
  · split
    · exact ⟨base.text, rfl⟩
    · exact ⟨base.text ++ "/", rfl⟩

theorem ending_eq_of_fileName? (hask : p.asksFolder = false) (h : p.fileName? = some n) :
    ending p.text = n := by
  obtain ⟨parts, hparts⟩ := split_concat p.text
  have hpiece : ending p.text ≠ "" ∧ ending p.text ≠ "." := by
    constructor <;>
    · intro hidle
      simp [asksFolder, hparts, hidle] at hask
  rw [fileName?_eq_some, trail, hparts, List.filterMap_append, List.getLast?_append] at h
  by_cases hup : ending p.text = ".."
  · simp [Component.ofPiece?, hup] at h
  · simpa [Component.ofPiece?, hpiece, hup] using h

end Path

end SceneDiagram
