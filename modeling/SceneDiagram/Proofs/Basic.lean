import SceneDiagram.Span

/-!
# Outcomes

What it means that a look-up or a sequence of steps succeeds, and that two
sequences end alike.
-/

namespace SceneDiagram

theorem bind_ok {x : Except ε α} {f : α → Except ε β} :
    x >>= f = .ok b ↔ ∃ a, x = .ok a ∧ f a = .ok b := by
  cases x <;> simp [bind, Except.bind]

theorem bind_error {x : Except ε α} {f : α → Except ε β} :
    x >>= f = .error e ↔ x = .error e ∨ ∃ a, x = .ok a ∧ f a = .error e := by
  cases x <;> simp [bind, Except.bind]

theorem map_ok {x : Except ε α} {f : α → β} : x.map f = .ok b ↔ ∃ a, x = .ok a ∧ f a = b := by
  cases x <;> simp [Except.map]

theorem toOption_map_eq_some {x : Except ε α} {f : α → β} :
    x.toOption.map f = some b ↔ ∃ a, x = .ok a ∧ f a = b := by
  cases x <;> simp [Except.toOption]

theorem mapError_ok (f : ε → ε') (a : α) : (Except.ok a).mapError f = .ok a := rfl

theorem mapError_error (f : ε → ε') (e : ε) : (Except.error e : Except ε α).mapError f =
    .error (f e) := rfl

theorem mapError_eq_ok {x : Except ε α} {f : ε → ε'} : x.mapError f = .ok a ↔ x = .ok a := by
  cases x with
  | error e => simp [mapError_error]
  | ok b => rw [mapError_ok, Except.ok.injEq, Except.ok.injEq]

theorem mem_of_lookup [BEq α] [LawfulBEq α] {entries : List (α × β)}
    (h : entries.lookup key = some value) : (key, value) ∈ entries := by
  obtain ⟨front, back, rfl, -⟩ := List.lookup_eq_some_iff.mp h
  exact List.mem_append_right front List.mem_cons_self

theorem lookup_map_mk [BEq κ] (f : α → κ) (g : α → β) (l : List α) (key : κ) :
    (l.map fun a => (f a, g a)).lookup key = (l.find? (key == f ·)).map g := by
  induction l with
  | nil => rfl
  | cons a l ih =>
    rw [List.map_cons, List.lookup_cons, List.find?_cons, ih]
    cases key == f a <;> rfl

theorem eraseDups_append_singleton (l : List String) (a : String) :
    (l ++ [a]).eraseDups = if a ∈ l then l.eraseDups else l.eraseDups ++ [a] := by
  rw [List.eraseDups_append]
  by_cases h : a ∈ l <;> simp [h, List.removeAll, List.eraseDups_cons]

theorem mapM_ok_of_imp {f g : α → Except ε β} (l : List α) (hl : l.mapM f = .ok bs)
    (hfg : ∀ a ∈ l, ∀ b, f a = .ok b → g a = .ok b) : l.mapM g = .ok bs := by
  induction l generalizing bs with
  | nil => exact hl
  | cons a l ih =>
    obtain ⟨hfirst, hrest⟩ := List.forall_mem_cons.mp hfg
    rw [List.mapM_cons] at hl ⊢
    obtain ⟨b, hb, hl⟩ := bind_ok.mp hl
    obtain ⟨bs, hbs, hl⟩ := bind_ok.mp hl
    exact bind_ok.mpr ⟨b, hfirst b hb, bind_ok.mpr ⟨bs, ih hbs hrest, hl⟩⟩

/-- Two outcomes agree: both are successes that `R` relates, or both are failures
that `E` relates. -/
inductive Agree (E : ε → ε' → Prop) (R : α → β → Prop) : Except ε α → Except ε' β → Prop
  | ok : R a b → Agree E R (.ok a) (.ok b)
  | error : E e e' → Agree E R (.error e) (.error e')

theorem Agree.bind (h : Agree E R x y) (hf : ∀ a b, R a b → Agree E S (f a) (g b)) :
    Agree E S (x >>= f) (y >>= g) := by
  cases h with
  | ok h => exact hf _ _ h
  | error h => exact .error h

theorem Agree.foldlM {f : α → γ → Except ε α} {g : β → γ → Except ε' β} (h : R a b) (l : List γ)
    (hf : ∀ a b c, R a b → Agree E R (f a c) (g b c)) : Agree E R (l.foldlM f a) (l.foldlM g b) := by
  induction l generalizing a b with
  | nil => exact .ok h
  | cons c l ih =>
    rw [List.foldlM_cons, List.foldlM_cons]
    exact (hf a b c h).bind fun _ _ h => ih h

theorem Agree.mapError (h : Agree E R x y) (hf : ∀ e e', E e e' → E' (f e) (g e')) :
    Agree E' R (x.mapError f) (y.mapError g) := by
  cases h with
  | ok h => exact .ok h
  | error h => exact .error (hf _ _ h)

end SceneDiagram
