import SceneDiagram.Proofs.Text.Uppercase
import SceneDiagram.Text.PascalCase

/-!
# Class names of class names

`pascalCase_stable_iff`: the runs joined are letters and numbers only, and joining them again
changes nothing, exactly if no run begins with a letter whose capital writes its accents by
themselves. Whatever the text, its class name begins with a capital
(`isCapital_of_joinRuns`), so an accent by itself is never at the front: it splits the name,
and is lost where the name is joined again.
-/

namespace SceneDiagram.Text

variable {c d : Char} {cs : List Char} {raise : Bool}

theorem joinRuns_cons_false (h : isAlphanumeric c = false) :
    joinRuns raise (c :: cs) = joinRuns true cs := by
  rw [joinRuns, h]
  rfl

theorem joinRuns_cons_true (h : isAlphanumeric c) :
    joinRuns raise (c :: cs) = (if raise then upper c else [c]) ++ joinRuns false cs := by
  rw [joinRuns, h]
  cases raise <;> rfl

theorem joinRuns_eq_nil : joinRuns raise cs = [] ↔ ∀ c ∈ cs, isAlphanumeric c = false := by
  induction cs generalizing raise with
  | nil => simp [joinRuns]
  | cons c cs ih =>
    rw [List.forall_mem_cons]
    cases hc : isAlphanumeric c with
    | false => simpa [joinRuns_cons_false hc] using ih
    | true => cases raise <;> simp [joinRuns_cons_true hc, upper_ne_nil]

-- ---------------------------------------------------------------------------
-- Where runs begin
-- ---------------------------------------------------------------------------

/-- The character begins a run of letters and numbers somewhere in the text; at the very
front only if `raise`. -/
def BeginsRun (raise : Bool) (c : Char) (cs : List Char) : Prop :=
  ∃ before after, cs = before ++ c :: after ∧ isAlphanumeric c ∧
    before.getLast?.elim raise fun d => !isAlphanumeric d

theorem not_beginsRun_nil : ¬ BeginsRun raise c [] := by
  rintro ⟨before, after, hcs, -⟩
  exact List.append_ne_nil_of_right_ne_nil before (List.cons_ne_nil c after) hcs.symm

theorem beginsRun_cons : BeginsRun raise c (d :: cs) ↔
    (c = d ∧ isAlphanumeric d ∧ raise) ∨ BeginsRun (!isAlphanumeric d) c cs := by
  constructor
  · rintro ⟨before, after, hcs, hc, hbefore⟩
    obtain - | ⟨e, before⟩ := before
    · obtain ⟨rfl, rfl⟩ := List.cons.inj hcs
      exact .inl ⟨rfl, hc, hbefore⟩
    · obtain ⟨rfl, rfl⟩ := List.cons.inj hcs
      refine .inr ⟨before, after, rfl, hc, ?_⟩
      rw [List.getLast?_cons] at hbefore
      cases hlast : before.getLast? <;> simpa [hlast] using hbefore
  · rintro (⟨rfl, hc, hraise⟩ | ⟨before, after, rfl, hc, hbefore⟩)
    · exact ⟨[], cs, rfl, hc, hraise⟩
    · refine ⟨d :: before, after, rfl, hc, ?_⟩
      rw [List.getLast?_cons]
      cases hlast : before.getLast? <;> simpa [hlast] using hbefore

/-- Letters and numbers are all that is joined, unless a run begins with a letter that
has no capital of its own. -/
theorem joinRuns_isAlphanumeric_iff : (∀ d ∈ joinRuns raise cs, isAlphanumeric d) ↔
    ∀ c, BeginsRun raise c cs → c.toNat ∉ markedCapitals := by
  induction cs generalizing raise with
  | nil => simp [joinRuns, not_beginsRun_nil]
  | cons d cs ih =>
    simp only [beginsRun_cons, or_imp, forall_and, ← ih]
    cases hd : isAlphanumeric d with
    | false => simp [joinRuns_cons_false hd]
    | true =>
      rw [joinRuns_cons_true hd, List.forall_mem_append]
      cases raise with
      | false => simp [hd]
      | true => simp [← upper_isAlphanumeric_iff hd]

-- ---------------------------------------------------------------------------
-- Joining what was joined
-- ---------------------------------------------------------------------------

theorem isCapital_of_joinRuns (h : joinRuns true cs = c :: joined) : IsCapital c := by
  induction cs with
  | nil => cases h
  | cons d cs ih =>
    cases hd : isAlphanumeric d with
    | false =>
      rw [joinRuns_cons_false hd] at h
      exact ih h
    | true =>
      obtain ⟨capital, form, hupper, hcapital⟩ := exists_capital hd
      rw [joinRuns_cons_true hd, if_pos rfl, hupper, List.cons_append] at h
      exact (List.cons.inj h).1 ▸ hcapital

/-- A text without new runs is as it was exactly if it is one run: past a gap, the text that
is joined begins with a capital, and what is in the gap is none. -/
theorem joinRuns_eq_self_iff : joinRuns false cs = cs ↔ ∀ c ∈ cs, isAlphanumeric c := by
  induction cs with
  | nil => simp [joinRuns]
  | cons c cs ih =>
    rw [List.forall_mem_cons, ← ih]
    cases hc : isAlphanumeric c with
    | true => simp [joinRuns_cons_true hc]
    | false =>
      rw [joinRuns_cons_false hc]
      refine iff_of_false (fun hsame => ?_) fun h => Bool.false_ne_true h.1
      exact Bool.false_ne_true (hc ▸ (isCapital_of_joinRuns hsame).1)

theorem joinRuns_joinRuns_iff : joinRuns true (joinRuns true cs) = joinRuns true cs ↔
    ∀ d ∈ joinRuns true cs, isAlphanumeric d := by
  cases hjoined : joinRuns true cs with
  | nil => simp [joinRuns]
  | cons c joined =>
    obtain ⟨hc, hupper⟩ := isCapital_of_joinRuns hjoined
    rw [joinRuns_cons_true hc, if_pos rfl, hupper, List.forall_mem_cons, ← joinRuns_eq_self_iff]
    simp [hc]

/-- A class name has letters and numbers only, and is its own class name, exactly if no run of
the text begins with a letter whose capital writes its accents by themselves. -/
theorem pascalCase_stable_iff (s : String) :
    ((∀ d ∈ (pascalCase s).toList, isAlphanumeric d) ↔
      ∀ c, BeginsRun true c s.toList → c.toNat ∉ markedCapitals) ∧
    (pascalCase (pascalCase s) = pascalCase s ↔
      ∀ c, BeginsRun true c s.toList → c.toNat ∉ markedCapitals) := by
  simp only [pascalCase, String.toList_ofList, String.ofList_inj, joinRuns_joinRuns_iff,
    joinRuns_isAlphanumeric_iff, and_self]

/-- The capital of this letter is `J` and a caron by itself, which is lost the second time. -/
theorem pascalCase_unstable : pascalCase "\u01f0" = "J\u030c" ∧
    isAlphanumeric '\u030c' = false ∧ pascalCase (pascalCase "\u01f0") = "J" := by
  decide +kernel

end SceneDiagram.Text
