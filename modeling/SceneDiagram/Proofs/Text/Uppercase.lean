import Mathlib.Data.Nat.Bitwise
import SceneDiagram.Proofs.Basic
import SceneDiagram.Text.Alphanumeric
import SceneDiagram.Text.Uppercase

/-!
# Capitals

What the tables say of the upper-case form of a letter or number: it begins with a letter
or number that is its own form (`exists_capital`), and has nothing else in it unless the
character is one of the few whose form writes an accent by itself
(`upper_isAlphanumeric_iff`). The tables hold thousands of code points, so they are compared
as sets, written as numbers with a bit for each member.
-/

namespace SceneDiagram.Text

-- ---------------------------------------------------------------------------
-- Sets of code points as numbers
-- ---------------------------------------------------------------------------

def unite (f : α → Nat) (l : List α) : Nat := l.foldr (fun a b => f a ||| b) 0

def bits (ns : List Nat) : Nat := unite (1 <<< ·) ns

def rangeBits (ranges : List (Nat × Nat)) : Nat :=
  unite (fun r => (1 <<< (r.2 + 1 - r.1) - 1) <<< r.1) ranges

/-- The number that has `count` bits, from the lowest on one in every `step`. -/
def comb (step : Nat) : (count : Nat) → Nat
  | 0 => 0
  | count + 1 => comb step count <<< step ||| 1

def Stride.bitsAt (s : Stride) (start : Nat) : Nat :=
  comb s.step ((s.last - s.first) / s.step + 1) <<< start

variable {n m : Nat}

theorem testBit_unite (f : α → Nat) (l : List α) :
    (unite f l).testBit n = l.any fun a => (f a).testBit n := by
  induction l with
  | nil => exact Nat.zero_testBit n
  | cons a l ih =>
    rw [List.any_cons, ← ih]
    exact Nat.testBit_or _ _ n

theorem testBit_bits {ns : List Nat} : (bits ns).testBit n ↔ n ∈ ns := by
  simp only [bits, testBit_unite, Nat.one_shiftLeft, Nat.testBit_two_pow, List.any_eq_true,
    decide_eq_true_eq, exists_eq_right]

theorem testBit_rangeBits (ranges : List (Nat × Nat)) :
    (rangeBits ranges).testBit n = inRanges ranges n := by
  have hrange (r : Nat × Nat) : ((1 <<< (r.2 + 1 - r.1) - 1) <<< r.1).testBit n =
      (decide (r.1 ≤ n) && decide (n ≤ r.2)) := by
    rw [Nat.testBit_shiftLeft, Nat.one_shiftLeft, Nat.testBit_two_pow_sub_one, Bool.eq_iff_iff]
    simp only [Bool.and_eq_true, decide_eq_true_eq]
    omega
  rw [rangeBits, testBit_unite, inRanges]
  simp only [hrange]

theorem testBit_comb (step : Nat) {i count : Nat} (h : i < count) :
    (comb step count).testBit (step * i) := by
  induction count generalizing i with
  | zero => exact absurd h (Nat.not_lt_zero i)
  | succ count ih =>
    rw [comb, Nat.testBit_or]
    cases i with
    | zero => simp
    | succ i =>
      rw [Nat.mul_succ, Nat.testBit_shiftLeft, Nat.add_sub_cancel,
        ih (Nat.lt_of_succ_lt_succ h)]
      simp

theorem Stride.testBit_bitsAt {s : Stride} (h : s.has n) (start : Nat) :
    (s.bitsAt start).testBit (start + (n - s.first)) := by
  simp only [has, Bool.and_eq_true, decide_eq_true_eq, beq_iff_eq] at h
  obtain ⟨⟨-, hlast⟩, hstep⟩ := h
  have hcount : (n - s.first) / s.step < (s.last - s.first) / s.step + 1 :=
    Nat.lt_succ_of_le (Nat.div_le_div_right (Nat.sub_le_sub_right hlast _))
  have hbit := testBit_comb s.step hcount
  rw [Nat.mul_div_cancel' (Nat.dvd_of_mod_eq_zero hstep)] at hbit
  rw [bitsAt, Nat.testBit_shiftLeft, Nat.add_sub_cancel_left, hbit]
  simp

theorem testBit_of_and_eq (h : n &&& m = n) (hn : n.testBit i) : m.testBit i := by
  have hand := Nat.testBit_and n m i
  rwa [h, hn, Bool.true_and, eq_comm] at hand

theorem testBit_of_and_eq_zero (h : n &&& m = 0) (hn : n.testBit i) : m.testBit i = false := by
  have hand := Nat.testBit_and n m i
  rwa [h, Nat.zero_testBit, hn, Bool.true_and, eq_comm] at hand

-- ---------------------------------------------------------------------------
-- Letters and numbers
-- ---------------------------------------------------------------------------

def alphanumericBits : Nat :=
  rangeBits ((0x41, 0x5A) :: (0x61, 0x7A) :: (0x30, 0x39) :: alphanumericRanges)

theorem isAlphanum_eq (c : Char) : c.isAlphanum =
    inRanges [(0x41, 0x5A), (0x61, 0x7A), (0x30, 0x39)] c.toNat := by
  have hranges : c.isAlphanum =
      ((decide ('A'.val ≤ c.val ∧ c.val ≤ 'Z'.val) ||
        (decide ('a'.val ≤ c.val) && decide (c.val ≤ 'z'.val))) ||
        (decide ('0'.val ≤ c.val) && decide (c.val ≤ '9'.val))) := rfl
  rw [hranges, Bool.eq_iff_iff]
  simp only [UInt32.le_iff_toNat_le, inRanges, List.any_cons, List.any_nil, Bool.or_false,
    Bool.or_eq_true, Bool.and_eq_true, decide_eq_true_eq, or_assoc]
  rfl

theorem isAlphanumeric_eq (c : Char) : isAlphanumeric c = alphanumericBits.testBit c.toNat := by
  rw [alphanumericBits, testBit_rangeBits, isAlphanumeric, isAlphanum_eq]
  simp [inRanges, Bool.or_assoc]

-- ---------------------------------------------------------------------------
-- Upper-case forms
-- ---------------------------------------------------------------------------

variable {c : Char}

theorem forms_ne_nil : ∀ e ∈ uppercaseExpansions, e.2 ≠ [] := by decide +kernel

theorem upper_ne_nil (c : Char) : upper c ≠ [] := by
  unfold upper
  split
  · exact List.cons_ne_nil _ _
  · split
    · next form hform =>
      simpa using forms_ne_nil _ (mem_of_lookup hform)
    · split <;> exact List.cons_ne_nil _ _

def shifts : List (Stride × Int) := (⟨0x61, 0x7A, 1⟩, -32) :: uppercaseShifts

theorem toUpper_ascii : (List.range 0x80).all (fun n => (Char.ofNat n).toUpper ==
    Char.ofNat (if (⟨0x61, 0x7A, 1⟩ : Stride).has n then n - 32 else n)) = true := by
  decide +kernel

theorem upper_cases (c : Char) :
    (∃ form, (c.toNat, form) ∈ uppercaseExpansions ∧ upper c = form.map Char.ofNat) ∨
    (c.toNat < 0x80 ∨ c.toNat ∉ uppercaseExpansions.map (·.1)) ∧
      ((∃ s shift, (s, shift) ∈ shifts ∧ s.has c.toNat ∧
        upper c = [Char.ofNat (c.toNat + shift).toNat]) ∨ upper c = [c]) := by
  unfold upper
  split
  · next hlt =>
    have hupper := List.all_eq_true.mp toUpper_ascii _ (List.mem_range.mpr hlt)
    rw [beq_iff_eq, Char.ofNat_toNat] at hupper
    refine .inr ⟨.inl hlt, ?_⟩
    split at hupper
    · next hlower =>
      refine .inl ⟨_, _, List.mem_cons_self, hlower, ?_⟩
      have hshift : (c.toNat + -32 : Int).toNat = c.toNat - 32 := by omega
      rw [hupper, hshift]
    · rw [hupper, Char.ofNat_toNat]
      exact .inr rfl
  · split
    · next form hform => exact .inl ⟨form, mem_of_lookup hform, rfl⟩
    · next hnone =>
      refine .inr ⟨.inr fun hmem => ?_, ?_⟩
      · obtain ⟨e, he, heq⟩ := List.mem_map.mp hmem
        simpa [heq] using List.lookup_eq_none_iff.mp hnone e he
      · split
        · next s shift hshift =>
          exact .inl ⟨s, shift, List.mem_cons_of_mem _ (List.mem_of_find?_eq_some hshift),
            (List.find?_some hshift :), rfl⟩
        · exact .inr rfl

def raisableBits : Nat :=
  unite (fun e => e.1.bitsAt e.1.first) shifts ||| bits (uppercaseExpansions.map (·.1))

def raisedBits : Nat :=
  unite (fun e => e.1.bitsAt (e.1.first + e.2).toNat) shifts |||
    bits (uppercaseExpansions.filterMap (·.2.head?))

theorem upper_of_not_raisable (h : raisableBits.testBit c.toNat = false) : upper c = [c] := by
  rw [raisableBits, Nat.testBit_or, Bool.or_eq_false_iff, testBit_unite, List.any_eq_false] at h
  obtain ⟨hshifts, hexpansions⟩ := h
  rcases upper_cases c with ⟨form, hform, -⟩ | ⟨-, ⟨s, shift, hs, hhas, -⟩ | hsame⟩
  · rw [testBit_bits.mpr (List.mem_map_of_mem hform)] at hexpansions
    cases hexpansions
  · have hbit := Stride.testBit_bitsAt hhas s.first
    simp only [Stride.has, Bool.and_eq_true, decide_eq_true_eq] at hhas
    rw [Nat.add_sub_cancel' hhas.1.1] at hbit
    exact absurd hbit (hshifts (s, shift) hs)
  · exact hsame

/-- What forms begin with are letters and numbers, and have no other form. Like all letters
and numbers these are code points of characters. -/
theorem raised_settled : raisedBits &&& alphanumericBits = raisedBits ∧
    raisedBits &&& raisableBits = 0 ∧ alphanumericBits &&& rangeBits [(0xD800, 0xDFFF)] = 0 ∧
    alphanumericBits >>> 0x110000 = 0 ∧
    shifts.all (fun e => 0 ≤ e.1.first + e.2) = true := by
  decide +kernel

theorem toNat_ofNat_of_alphanumeric (h : alphanumericBits.testBit n) :
    (Char.ofNat n).toNat = n := by
  obtain ⟨-, -, hsurrogates, hlast, -⟩ := raised_settled
  have hlt : n < 0x110000 := by
    refine Nat.lt_of_not_le fun hle => ?_
    have hbit : (alphanumericBits >>> 0x110000).testBit (n - 0x110000) := by
      rw [Nat.testBit_shiftRight, Nat.add_sub_cancel' hle]
      exact h
    rw [hlast, Nat.zero_testBit] at hbit
    cases hbit
  have hrange := testBit_of_and_eq_zero hsurrogates h
  rw [testBit_rangeBits] at hrange
  simp only [inRanges, List.any_cons, List.any_nil, Bool.or_false, Bool.and_eq_false_iff,
    decide_eq_false_iff_not] at hrange
  have hvalid : n.isValidChar := by
    change n < 0xD800 ∨ (0xDFFF < n ∧ n < 0x110000)
    omega
  have hchar : Char.ofNat n = Char.ofNatAux n hvalid := dif_pos hvalid
  rw [hchar]
  rfl

/-- A letter or number that is its own upper-case form. -/
def IsCapital (c : Char) : Prop := isAlphanumeric c ∧ upper c = [c]

theorem isCapital_of_raised (h : raisedBits.testBit n) : IsCapital (Char.ofNat n) := by
  obtain ⟨halpha, hapart, -⟩ := raised_settled
  have halpha := testBit_of_and_eq halpha h
  have hchar := toNat_ofNat_of_alphanumeric halpha
  constructor
  · rwa [isAlphanumeric_eq, hchar]
  · refine upper_of_not_raisable ?_
    rw [hchar]
    exact testBit_of_and_eq_zero hapart h

/-- The upper-case form of a letter or number begins with one that is its own form. -/
theorem exists_capital (h : isAlphanumeric c) : ∃ d t, upper c = d :: t ∧ IsCapital d := by
  rcases upper_cases c with ⟨form, hform, hupper⟩ | ⟨-, ⟨s, shift, hs, hhas, hupper⟩ | hupper⟩
  · obtain - | ⟨n, ns⟩ := form
    · exact absurd rfl (forms_ne_nil _ hform)
    · refine ⟨_, _, hupper, isCapital_of_raised ?_⟩
      rw [raisedBits, Nat.testBit_or, testBit_bits.mpr (List.mem_filterMap.mpr ⟨_, hform, rfl⟩),
        Bool.or_true]
  · refine ⟨_, [], hupper, isCapital_of_raised ?_⟩
    have hstart := List.all_eq_true.mp raised_settled.2.2.2.2 _ hs
    have hbit := Stride.testBit_bitsAt hhas (s.first + shift).toNat
    simp only [Stride.has, Bool.and_eq_true, decide_eq_true_eq] at hhas hstart
    have hplace : (s.first + shift).toNat + (c.toNat - s.first) = (c.toNat + shift).toNat := by
      omega
    rw [raisedBits, Nat.testBit_or, testBit_unite, Bool.or_eq_true, List.any_eq_true]
    exact .inl ⟨_, hs, hplace ▸ hbit⟩
  · exact ⟨c, [], hupper, h, hupper⟩

/-- The letters with no capital of their own: the upper-case form of one of them is a capital
and the accents of the letter, each an accent by itself. -/
def markedCapitals : List Nat :=
  [0x1F0, 0x390, 0x3B0, 0x1E96, 0x1E97, 0x1E98, 0x1E99, 0x1F50, 0x1F52, 0x1F54, 0x1F56, 0x1FB6,
   0x1FB7, 0x1FC6, 0x1FC7, 0x1FD2, 0x1FD3, 0x1FD6, 0x1FD7, 0x1FE2, 0x1FE3, 0x1FE4, 0x1FE6, 0x1FE7,
   0x1FF6, 0x1FF7]

theorem markedCapitals_expanded : markedCapitals.all (fun n => 0x80 ≤ n &&
      (uppercaseExpansions.map (·.1)).contains n) = true ∧
    uppercaseExpansions.all (fun e => (e.2.all fun n =>
      alphanumericBits.testBit (Char.ofNat n).toNat) == !markedCapitals.contains e.1) = true := by
  decide +kernel

/-- The upper-case form of a letter or number has letters and numbers only, unless it is
one that writes its accents by themselves. -/
theorem upper_isAlphanumeric_iff (h : isAlphanumeric c) :
    (∀ d ∈ upper c, isAlphanumeric d) ↔ c.toNat ∉ markedCapitals := by
  obtain ⟨hmarked, hforms⟩ := markedCapitals_expanded
  rcases upper_cases c with ⟨form, hform, hupper⟩ | ⟨hkey, hupper⟩
  · have hcheck := List.all_eq_true.mp hforms _ hform
    rw [beq_iff_eq, Bool.eq_iff_iff, List.all_eq_true, Bool.not_eq_true', ← Bool.not_eq_true,
      List.contains_iff_mem] at hcheck
    rw [hupper, List.forall_mem_map, ← hcheck]
    simp only [isAlphanumeric_eq]
  · obtain ⟨capital, t, hcapital, halpha, -⟩ := exists_capital h
    have hsingle : upper c = [capital] := by
      rcases hupper with ⟨s, shift, -, -, hupper⟩ | hupper <;>
        · rw [hupper] at hcapital ⊢
          rw [(List.cons.inj hcapital).1]
    rw [hsingle, List.forall_mem_singleton]
    refine iff_of_true halpha fun hmem => ?_
    have hcheck := List.all_eq_true.mp hmarked _ hmem
    rw [Bool.and_eq_true, decide_eq_true_eq, List.contains_iff_mem] at hcheck
    exact hkey.elim (Nat.not_lt.mpr hcheck.1) fun hnot => hnot hcheck.2

end SceneDiagram.Text
