import Stackline.Arithmetic
import Mathlib.Tactic.Linarith

/-! Integers seen as floats. No integer other than zero is rounded to a zero, so that testing the
float view of a divisor is testing the divisor. -/
namespace Stackline.Binary64

theorem isZero_iff (x : Binary64) : x.isZero = true ↔ x.bits.toNat % 2 ^ 63 = 0 := by
  have he : x.exponent = x.bits.toNat / 2 ^ 52 % 2 ^ 11 := by
    have mask : (0x7ff : UInt64).toNat = 2 ^ 11 - 1 := rfl
    have amount : (52 : UInt64).toNat % 64 = 52 := rfl
    rw [exponent, UInt64.toNat_and, UInt64.toNat_shiftRight, mask, amount,
      Nat.and_two_pow_sub_one_eq_mod, Nat.shiftRight_eq_div_pow]
  have hf : x.fraction = x.bits.toNat % 2 ^ 52 := by
    have mask : (0xfffffffffffff : UInt64).toNat = 2 ^ 52 - 1 := rfl
    rw [fraction, UInt64.toNat_and, mask, Nat.and_two_pow_sub_one_eq_mod]
  simp only [isZero, Bool.and_eq_true, beq_iff_eq, he, hf]
  omega

theorem shiftRight_log2_lt {u : Nat} (h : 52 ≤ u.log2) : u >>> (u.log2 - 52) < 2 ^ 53 := by
  rw [Nat.shiftRight_eq_div_pow]
  apply Nat.div_lt_of_lt_mul
  rw [← Nat.pow_add, show u.log2 - 52 + 53 = u.log2 + 1 by omega]
  exact Nat.lt_log2_self

/-- As long as the exponent fits into its field, only no units make a zero. -/
theorem isZero_ofUnits (negative : Bool) {u : Nat} (h : u.log2 < 2000) :
    (ofUnits negative u).isZero = true ↔ u = 0 := by
  rw [isZero_iff]
  by_cases hu : u < hiddenBit
  · simp only [ofUnits, hu, if_true]
    simp only [hiddenBit] at hu
    cases negative <;> simp <;> omega
  · have hbit : 2 ^ 52 ≤ u := by simpa [hiddenBit] using hu
    have hl : 52 ≤ u.log2 := (Nat.le_log2 (by omega)).2 hbit
    have hq := shiftRight_log2_lt hl
    simp only [ofUnits, hu, if_false]
    simp only [hiddenBit] at hu ⊢
    cases negative <;> simp <;> omega

theorem roundAt_bounds {shift m : Nat} (h : 2 ^ shift ≤ m) :
    0 < roundAt shift m ∧ roundAt shift m ≤ 2 * m := by
  have hq : 1 ≤ m / 2 ^ shift := (Nat.one_le_div_iff (by positivity)).2 h
  have hm : m / 2 ^ shift * 2 ^ shift ≤ m := Nat.div_mul_le_self m _
  have hp : 2 ^ shift ≤ m / 2 ^ shift * 2 ^ shift := Nat.le_mul_of_pos_left _ hq
  have h0 : 0 < 2 ^ shift := by positivity
  simp only [roundAt, Nat.shiftRight_eq_div_pow, Nat.shiftLeft_eq]
  split
  · omega
  · rw [Nat.add_mul]
    omega

theorem shiftLeft_bounds {r digits : Nat} (shift : Nat) (hpos : 0 < r) (h : r < 2 ^ digits) :
    r <<< shift ≠ 0 ∧ (r <<< shift).log2 < digits + shift := by
  have hne : r <<< shift ≠ 0 := by
    rw [Nat.shiftLeft_eq]
    positivity
  refine ⟨hne, ?_⟩
  rw [Nat.log2_lt hne, Nat.shiftLeft_eq, Nat.pow_add]
  exact Nat.mul_lt_mul_of_pos_right h (by positivity)

theorem isZero_ofInt (n : Int64) : (ofInt n).isZero = true ↔ n = 0 := by
  have hn : n.toInt.natAbs = 0 ↔ n = 0 := by
    rw [Int.natAbs_eq_zero, ← Int64.toInt_zero, Int64.toInt_inj]
  rw [← hn]
  generalize hm : n.toInt.natAbs = m
  have hle : m ≤ 2 ^ 63 := by
    have lower := n.le_toInt
    have upper := n.toInt_lt
    omega
  simp only [ofInt, hm]
  by_cases h0 : m = 0
  · subst h0
    simp [roundAt, isZero_ofUnits]
  · have hs : 2 ^ (m.log2 - 52) ≤ m :=
      (Nat.pow_le_pow_right (by decide) (Nat.sub_le _ _)).trans (Nat.log2_self_le h0)
    obtain ⟨hpos, hdouble⟩ := roundAt_bounds hs
    obtain ⟨hu, hlog⟩ := shiftLeft_bounds 1074 hpos (show _ < 2 ^ 65 by omega)
    rw [isZero_ofUnits _ (by omega)]
    exact ⟨fun h => absurd h hu, fun h => absurd h h0⟩

end Stackline.Binary64

namespace Stackline.Value

/-- The zero test on the float view of an integer is the zero test on the integer. -/
@[simp] theorem isZero_int (n : Int64) : (int n).isZero = true ↔ n = 0 := by
  simpa [isZero, toBinary64?] using Binary64.isZero_ofInt n

end Stackline.Value
