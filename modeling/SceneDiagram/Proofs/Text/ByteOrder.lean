import Mathlib.Tactic.SplitIfs
import SceneDiagram.Text.Split

/-!
# The order of texts

`lt_iff_bytes_lt`: texts are ordered like their bytes. A later character is written with
more bytes, of which the first is larger, or with as many, the first of them that differs
larger.
-/

namespace SceneDiagram.Text

def bytes (s : String) : List UInt8 := s.toByteArray.data.toList

theorem bytes_eq (s : String) : bytes s = s.toList.flatMap String.utf8EncodeChar := by
  rw [bytes, ← String.ofList_toList (s := s), String.toByteArray_ofList, List.utf8Encode]
  simp

theorem ofNat_cons_lt {a b : Nat} (x y : List UInt8) (ha : a < 256) (hb : b < 256) :
    UInt8.ofNat a :: x < UInt8.ofNat b :: y ↔ a < b ∨ a = b ∧ x < y := by
  rw [List.cons_lt_cons_iff, UInt8.lt_iff_toNat_lt, ← UInt8.toNat_inj, UInt8.toNat_ofNat',
    UInt8.toNat_ofNat', Nat.mod_eq_of_lt ha, Nat.mod_eq_of_lt hb]

theorem div_lt_or_mod_lt {v w : Nat} (k : Nat) (h : v < w) :
    v / k < w / k ∨ v / k = w / k ∧ v % k < w % k := by
  rcases Nat.lt_or_eq_of_le (Nat.div_le_div_right (Nat.le_of_lt h) : v / k ≤ w / k) with hlt | heq
  · exact .inl hlt
  · have hv := Nat.div_add_mod v k
    have hw := Nat.div_add_mod w k
    rw [heq] at hv
    exact .inr ⟨heq, by omega⟩

theorem encode_lt {c d : Char} (h : c < d) (x y : List UInt8) :
    String.utf8EncodeChar c ++ x < String.utf8EncodeChar d ++ y := by
  have hlt : c.val.toNat < d.val.toNat := h
  have hmax : d.val.toNat < 0x110000 := by
    have := d.valid
    simp only [UInt32.isValidChar, Nat.isValidChar] at this
    omega
  unfold String.utf8EncodeChar
  generalize c.val.toNat = v at *
  generalize d.val.toNat = w at *
  -- The digits to the base 64, the last first: the first that differs from behind decides.
  have hlast := div_lt_or_mod_lt 64 hlt
  have hmiddle := div_lt_or_mod_lt (v := v / 64) (w := w / 64) 64
  have hfirst := div_lt_or_mod_lt (v := v / 64 / 64) (w := w / 64 / 64) 64
  simp only [Nat.div_div_eq_div_mul, Nat.reduceMul] at hmiddle hfirst
  have hv : v / 262144 % 8 = v / 262144 := Nat.mod_eq_of_lt (by omega)
  have hw : w / 262144 % 8 = w / 262144 := Nat.mod_eq_of_lt (by omega)
  simp only
  split_ifs <;>
    simp (disch := omega) only [List.cons_append, List.nil_append, ofNat_cons_lt] <;> omega

theorem flatMap_encode_lt {cs ds : List Char} (h : cs < ds) :
    cs.flatMap String.utf8EncodeChar < ds.flatMap String.utf8EncodeChar := by
  induction h with
  | @nil d ds =>
    obtain ⟨b, bs, hd⟩ := List.exists_cons_of_ne_nil (String.utf8EncodeChar_ne_nil (c := d))
    rw [List.flatMap_nil, List.flatMap_cons, hd, List.cons_append]
    exact List.nil_lt_cons _ _
  | rel h => exact encode_lt h _ _
  | cons _ ih => exact List.append_left_lt ih

/-- Texts are ordered like their bytes. -/
theorem lt_iff_bytes_lt {s t : String} : s < t ↔ bytes s < bytes t := by
  have himp {s t : String} (h : s < t) : bytes s < bytes t := by
    rw [bytes_eq, bytes_eq]
    exact flatMap_encode_lt (String.lt_iff.mp h)
  refine ⟨himp, fun hbytes => String.not_le.mp fun hle => ?_⟩
  by_cases heq : t = s
  · rw [heq] at hbytes
    exact List.lt_irrefl _ hbytes
  · have hlt : t < s := String.not_le.mp fun hge => heq (String.le_antisymm hle hge)
    exact List.lt_asymm hbytes (himp hlt)

end SceneDiagram.Text
