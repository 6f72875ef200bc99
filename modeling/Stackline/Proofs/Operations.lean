import Stackline.Proofs.Conversion
import Stackline.Proofs.Steps
import Mathlib.Data.Int.ModEq

/-! What the arithmetic instructions make of two integers and of texts: exact results modulo `2 ^ 64`
with division cut off toward zero, and joined or repeated texts up to the limit, which is compared
with the exact number of bytes. -/
namespace Stackline

namespace Arithmetic

/-- Wherever the operation is invoked with `b` on top of the stack and `a` below it, both are taken
off, and a value takes their place or a cause is told at the head of the line. -/
def Gives (op : Arithmetic) (a b : Value) (result : Except Cause Value) : Prop :=
  ∀ {σ : Type} [Output σ] (m : Machine σ) (labels : Labels) (head : Token) (args : List Token)
    (below : Stack), (Instruction.compute op).Invoked head args →
      m.stack = (below.push a).push b →
        m.step labels (head :: args) = m.settle below (result.mapError (Error.mk head.position))

theorem gives_apply (op : Arithmetic) (a b : Value) : op.Gives a b (op.apply a b) := by
  intro σ _ m labels head args below hinvoked hstack
  have hpop : m.stack.popPair head.position = .ok ((a, b), below) := Stack.popPair_eq_ok.2 hstack
  cases hv : op.apply a b with
  | ok v => exact Machine.step_of_invoked hinvoked (.computed hpop hv)
  | error cause => exact Machine.step_of_invoked hinvoked (.undefined hpop hv)

theorem gives_iff {op : Arithmetic} {a b : Value} {result : Except Cause Value} :
    op.Gives a b result ↔ op.apply a b = result := by
  constructor
  · intro h
    -- One use is enough to tell results apart.
    let m : Machine PrintedValues := { stack := (Stack.empty.push a).push b, output := {} }
    have hinvoked : (Instruction.compute op).Invoked
        ⟨.word, (Instruction.compute op).mnemonic, ⟨0, 0⟩⟩ [] := ⟨⟨rfl, rfl⟩, rfl⟩
    have hgiven := h m [] _ [] .empty hinvoked rfl
    rw [op.gives_apply a b m [] _ [] .empty hinvoked rfl, Machine.settle_inj] at hgiven
    revert hgiven
    cases op.apply a b <;> cases result <;> simp [Except.mapError]
  · intro h
    exact h ▸ op.gives_apply a b

end Arithmetic

section Integers

variable {a b : Int64}

/-- `v` is the one 64-bit integer that is congruent to `n`. -/
def Wraps (n : Int) (v : Int64) : Prop :=
  ∀ w : Int64, w.toInt ≡ n [ZMOD 2 ^ 64] ↔ w = v

theorem wraps_of_bmod {n : Int} {v : Int64} (h : v.toInt = n.bmod (2 ^ 64)) : Wraps n v := by
  have hv : v.toInt ≡ n [ZMOD 2 ^ 64] := by
    rw [h]
    exact Int.bmod_emod
  intro w
  constructor
  · intro hw
    have hcongruent : w.toInt % 2 ^ 64 = v.toInt % 2 ^ 64 := hw.trans hv.symm
    have hwl := w.le_toInt
    have hwu := w.toInt_lt
    have hvl := v.le_toInt
    have hvu := v.toInt_lt
    rw [← Int64.toInt_inj]
    omega
  · intro hw
    rwa [hw]

namespace Value

variable {operation : Operation} {onInts : Int64 → Int64 → Except Cause Int64}
  {onFloats : Binary64 → Binary64 → Binary64}

theorem dividing_int (hb : b ≠ 0) :
    dividing operation onInts onFloats (int a) (int b) = (onInts a b).map int := by
  have hzero : ¬(int b).isZero = true := (isZero_int b).not.2 hb
  simp [dividing, hzero, numeric]

theorem dividing_int_eq_divisionByZero (hdefined : b ≠ 0 → ∃ z, onInts a b = .ok z) :
    dividing operation onInts onFloats (int a) (int b) = .error .divisionByZero ↔ b = 0 := by
  constructor
  · intro h
    by_contra hb
    obtain ⟨z, hz⟩ := hdefined hb
    rw [dividing_int hb, hz] at h
    cases h
  · intro hb
    have hzero : (int b).isZero = true := (isZero_int b).2 hb
    simp [dividing, toBinary64?, hzero]

end Value

/-- Only the least integer divided by -1 gives a quotient out of range. -/
theorem toInt_quotient (h : ¬(a.toInt = -2 ^ 63 ∧ b.toInt = -1)) :
    (a / b).toInt = a.toInt.tdiv b.toInt := by
  by_cases hb : b.toInt = -1
  · apply Int64.toInt_div_of_ne_left
    intro ha
    exact h ⟨by rw [ha, Int64.toInt_minValue], hb⟩
  · apply Int64.toInt_div_of_ne_right
    intro hone
    exact hb (by rw [hone]; rfl)

theorem quotient_mul_add_leftover (a b : Int64) :
    (a / b).toInt * b.toInt + (a % b).toInt ≡ a.toInt [ZMOD 2 ^ 64] := by
  have hq : (a / b).toInt ≡ a.toInt.tdiv b.toInt [ZMOD 2 ^ 64] := by
    rw [Int64.toInt_div]
    exact Int.bmod_emod
  calc (a / b).toInt * b.toInt + (a % b).toInt
      ≡ a.toInt.tdiv b.toInt * b.toInt + a.toInt.tmod b.toInt [ZMOD 2 ^ 64] := by
        rw [Int64.toInt_mod]
        exact (hq.mul_right _).add_right _
    _ = a.toInt := Int.tdiv_mul_add_tmod a.toInt b.toInt

theorem natAbs_leftover_lt (hb : b ≠ 0) : (a % b).toInt.natAbs < b.toInt.natAbs := by
  have hne : b.toInt ≠ 0 := by
    intro hzero
    exact hb (Int64.toInt_inj.1 (hzero.trans Int64.toInt_zero.symm))
  rw [Int64.toInt_mod, Int.natAbs_tmod]
  exact Nat.mod_lt _ (Int.natAbs_pos.2 hne)

theorem sign_leftover (a b : Int64) :
    (a % b).toInt = 0 ∨ (a % b).toInt.sign = a.toInt.sign := by
  have hsign := Int.sign_tmod a.toInt b.toInt
  rw [Int64.toInt_mod]
  by_cases hdvd : b.toInt ∣ a.toInt
  · exact Or.inl (Int.tmod_eq_zero_of_dvd hdvd)
  · rw [if_neg hdvd] at hsign
    exact Or.inr hsign

/-- Sums, differences and products of integers are exact modulo `2 ^ 64`. There is no quotient and no
remainder by zero, and by nothing else; the quotient is cut off toward zero, but for the one that is
out of range, and the remainder is what it leaves over, smaller than the divisor and not of the
other sign than the dividend. -/
theorem integer_arithmetic_is_exact (a b : Int64) :
    (∃ v, Wraps (a.toInt + b.toInt) v ∧ Arithmetic.add.Gives (.int a) (.int b) (.ok (.int v))) ∧
    (∃ v, Wraps (a.toInt - b.toInt) v ∧ Arithmetic.sub.Gives (.int a) (.int b) (.ok (.int v))) ∧
    (∃ v, Wraps (a.toInt * b.toInt) v ∧ Arithmetic.mul.Gives (.int a) (.int b) (.ok (.int v))) ∧
    (Arithmetic.div.Gives (.int a) (.int b) (.error .divisionByZero) ↔ b = 0) ∧
    (Arithmetic.mod.Gives (.int a) (.int b) (.error .divisionByZero) ↔ b = 0) ∧
    (b ≠ 0 → ∃ q r : Int64,
      Arithmetic.div.Gives (.int a) (.int b) (.ok (.int q)) ∧
      Arithmetic.mod.Gives (.int a) (.int b) (.ok (.int r)) ∧
      q.toInt * b.toInt + r.toInt ≡ a.toInt [ZMOD 2 ^ 64] ∧
      r.toInt.natAbs < b.toInt.natAbs ∧
      (r.toInt = 0 ∨ r.toInt.sign = a.toInt.sign) ∧
      if a.toInt = -2 ^ 63 ∧ b.toInt = -1 then q.toInt = -2 ^ 63 ∧ r.toInt = 0
      else q.toInt = a.toInt.tdiv b.toInt) := by
  simp only [Arithmetic.gives_iff]
  refine ⟨?_, ?_, ?_, ?_, ?_, ?_⟩
  · exact ⟨a + b, wraps_of_bmod (Int64.toInt_add a b), rfl⟩
  · exact ⟨a - b, wraps_of_bmod (Int64.toInt_sub a b), rfl⟩
  · exact ⟨a * b, wraps_of_bmod (Int64.toInt_mul a b), rfl⟩
  · exact Value.dividing_int_eq_divisionByZero fun hb => ⟨a / b, if_neg hb⟩
  · exact Value.dividing_int_eq_divisionByZero fun hb => ⟨a % b, if_neg hb⟩
  · intro hb
    have hdiv : Value.div (.int a) (.int b) = .ok (.int (a / b)) := by
      rw [Value.div, Value.dividing_int hb, Value.quotient, if_neg hb]
      rfl
    have hmod : Value.mod (.int a) (.int b) = .ok (.int (a % b)) := by
      rw [Value.mod, Value.dividing_int hb, Value.leftover, if_neg hb]
      rfl
    refine ⟨a / b, a % b, hdiv, hmod, quotient_mul_add_leftover a b, natAbs_leftover_lt hb,
      sign_leftover a b, ?_⟩
    split
    · rename_i hleast
      constructor
      · rw [Int64.toInt_div, hleast.1, hleast.2]
        rfl
      · rw [Int64.toInt_mod, hleast.1, hleast.2]
        rfl
    · rename_i hother
      exact toInt_quotient hother

theorem integer_arithmetic_is_exact_at_least :
    (-1 : Int64) ≠ 0 ∧
      Arithmetic.div.Gives (.int Int64.minValue) (.int (-1)) (.ok (.int Int64.minValue)) ∧
      Arithmetic.mod.Gives (.int Int64.minValue) (.int (-1)) (.ok (.int 0)) := by
  have hne : (-1 : Int64) ≠ 0 := by decide
  obtain ⟨q, r, hq, hr, -, -, -, hleast⟩ :=
    (integer_arithmetic_is_exact Int64.minValue (-1)).2.2.2.2.2 hne
  rw [if_pos (by decide)] at hleast
  have hquotient : q = Int64.minValue := Int64.toInt_inj.1 hleast.1
  have hleftover : r = 0 := Int64.toInt_inj.1 hleast.2
  rw [hquotient] at hq
  rw [hleftover] at hr
  exact ⟨hne, hq, hr⟩

end Integers

section Texts

def copies (x : String) (n : Nat) : String :=
  String.join (List.replicate n x)

theorem repeated_eq_copies (x : String) (n : Nat) : Text.repeated x n = copies x n := by
  rw [← String.toList_inj, Text.toList_repeated, copies, String.toList_join, List.flatMap_def,
    List.map_replicate]

theorem copies_empty (n : Nat) : copies "" n = "" := by
  rw [← String.toList_inj, copies, String.toList_join]
  simp

theorem copies_add (x : String) (m n : Nat) : copies x (m + n) = copies x m ++ copies x n := by
  rw [← String.toList_inj, String.toList_append]
  simp only [copies, String.toList_join]
  rw [← List.flatMap_append, List.replicate_append_replicate]

theorem utf8ByteSize_copies (x : String) (n : Nat) :
    (copies x n).utf8ByteSize = x.utf8ByteSize * n := by
  rw [← repeated_eq_copies, Text.utf8ByteSize_repeated]

namespace Value

theorem times_eq_copies (x : String) (n : Int64) :
    times x n =
      if n.toInt < 0 then .error .negativeRepeat
      else if x.utf8ByteSize * n.toInt ≤ maxTextBytes then .ok (text (copies x n.toInt.toNat))
      else .error .textTooLong := by
  by_cases hneg : n.toInt < 0
  · have hn : n < 0 := Int64.lt_iff_toInt_lt.2 hneg
    rw [times_eq, if_pos hn, if_pos hneg]
  · have hn : ¬n < 0 := Int64.lt_iff_toInt_lt.not.2 hneg
    have hcast : (n.toInt.toNat : Int) = n.toInt := Int.toNat_of_nonneg (Int.not_lt.1 hneg)
    have hbytes : x.utf8ByteSize * n.toInt ≤ maxTextBytes ↔
        x.utf8ByteSize * n.toInt.toNat ≤ maxTextBytes := by
      rw [← hcast]
      norm_cast
    simp only [times_eq, if_neg hn, if_neg hneg, hbytes, repeated_eq_copies]

theorem times_eq_ok {x : String} {n : Int64} (hn : 0 ≤ n.toInt)
    (hle : x.utf8ByteSize * n.toInt ≤ maxTextBytes) :
    times x n = .ok (text (copies x n.toInt.toNat)) := by
  rw [times_eq_copies, if_neg (Int.not_lt.2 hn), if_pos hle]

theorem join_copies {x : String} {m n : Nat} (h : x.utf8ByteSize * (m + n) ≤ maxTextBytes) :
    join (copies x m) (copies x n) = .ok (text (copies x (m + n))) := by
  rw [Nat.mul_add, ← utf8ByteSize_copies, ← utf8ByteSize_copies] at h
  rw [join_eq, if_pos h, copies_add]

end Value

/-- The check of a sum or product of lengths decides by the exact number, also if that is too large
for a word. So two texts are joined as long as the limit allows it, and a text is repeated as often
as it is told, zero times or more, as long as the limit allows that; and repeating a text `m` times
and `n` times and joining the two is repeating it `m + n` times. -/
theorem text_operations_respect_limit (x y : String) (n : Int64) :
    (∀ a b : UInt64,
      (Length.add? a b = none ↔ 2 ^ 64 ≤ a.toNat + b.toNat) ∧
      (Length.mul? a b = none ↔ 2 ^ 64 ≤ a.toNat * b.toNat) ∧
      (Value.checkLength (Length.add? a b) = .ok () ↔ a.toNat + b.toNat ≤ Value.maxTextBytes) ∧
      (Value.checkLength (Length.mul? a b) = .ok () ↔ a.toNat * b.toNat ≤ Value.maxTextBytes)) ∧
    (Arithmetic.add.Gives (.text x) (.text y) (.ok (.text (x ++ y))) ↔
      x.utf8ByteSize + y.utf8ByteSize ≤ Value.maxTextBytes) ∧
    (Arithmetic.add.Gives (.text x) (.text y) (.error .textTooLong) ↔
      ¬x.utf8ByteSize + y.utf8ByteSize ≤ Value.maxTextBytes) ∧
    (Arithmetic.mul.Gives (.text x) (.int n) (.error .negativeRepeat) ↔ n.toInt < 0) ∧
    (Arithmetic.mul.Gives (.text x) (.int n) (.ok (.text (copies x n.toInt.toNat))) ↔
      0 ≤ n.toInt ∧ x.utf8ByteSize * n.toInt ≤ Value.maxTextBytes) ∧
    (Arithmetic.mul.Gives (.text x) (.int n) (.error .textTooLong) ↔
      0 ≤ n.toInt ∧ ¬x.utf8ByteSize * n.toInt ≤ Value.maxTextBytes) ∧
    (0 ≤ n.toInt → Arithmetic.mul.Gives (.text "") (.int n) (.ok (.text ""))) ∧
    ∀ m : Int64, 0 ≤ m.toInt → 0 ≤ n.toInt → m.toInt + n.toInt ≤ 2 ^ 63 - 1 →
      x.utf8ByteSize * (m.toInt + n.toInt) ≤ Value.maxTextBytes →
        ∃ front back whole,
          Arithmetic.mul.Gives (.text x) (.int m) (.ok front) ∧
          Arithmetic.mul.Gives (.text x) (.int n) (.ok back) ∧
          Arithmetic.mul.Gives (.text x) (.int (m + n)) (.ok whole) ∧
          Arithmetic.add.Gives front back (.ok whole) := by
  simp only [Arithmetic.gives_iff, Arithmetic.apply, Value.add, Value.mul]
  refine ⟨?_, ?_, ?_, ?_, ?_, ?_, ?_, ?_⟩
  · intro a b
    refine ⟨?_, ?_, ?_, ?_⟩
    · rw [Length.add?_eq]
      exact Length.ofNat?_eq_none
    · rw [Length.mul?_eq]
      exact Length.ofNat?_eq_none
    · simp [Value.checkLength_add?]
    · simp [Value.checkLength_mul?]
  · simp [Value.join_eq]
  · simp [Value.join_eq]
  · rw [Value.times_eq_copies]
    split_ifs <;> simp_all
  · rw [Value.times_eq_copies]
    split_ifs <;> simp_all
  · rw [Value.times_eq_copies]
    split_ifs <;> simp_all
  · intro hn
    rw [Value.times_eq_ok hn (by simp)]
    simp only [copies_empty]
  · intro m hm hn hsum hle
    have hm' : x.utf8ByteSize * m.toInt ≤ Value.maxTextBytes :=
      (Int.mul_le_mul_of_nonneg_left (by omega) (Int.natCast_nonneg _)).trans hle
    have hn' : x.utf8ByteSize * n.toInt ≤ Value.maxTextBytes :=
      (Int.mul_le_mul_of_nonneg_left (by omega) (Int.natCast_nonneg _)).trans hle
    have hwhole : (m + n).toInt = m.toInt + n.toInt := by
      rw [Int64.toInt_add]
      exact Int.bmod_eq_of_le (by omega) (by omega)
    have hcount : (m + n).toInt.toNat = m.toInt.toNat + n.toInt.toNat := by omega
    have hbytes : x.utf8ByteSize * (m.toInt.toNat + n.toInt.toNat) ≤ Value.maxTextBytes := by
      zify
      rwa [Int.toNat_of_nonneg hm, Int.toNat_of_nonneg hn]
    refine ⟨_, _, _, Value.times_eq_ok hm hm', Value.times_eq_ok hn hn',
      Value.times_eq_ok (by omega) (by rwa [hwhole]), ?_⟩
    rw [hcount]
    exact Value.join_copies hbytes

/-- A character of two bytes, some copies of it joined with some more, and so many copies of four
bytes that nothing of their number is left in 64 bits. -/
theorem text_operations_respect_limit_of_accented :
    0 ≤ (3 : Int64).toInt ∧ (2 : Int64).toInt + (3 : Int64).toInt ≤ 2 ^ 63 - 1 ∧
      "é".utf8ByteSize * ((2 : Int64).toInt + (3 : Int64).toInt) ≤ Value.maxTextBytes ∧
      "abcd".utf8ByteSize * (0x4000000000000000 : Int64).toInt = 2 ^ 64 ∧
      Length.ofText "abcd" * 0x4000000000000000 = 0 ∧
      Length.mul? (Length.ofText "abcd") 0x4000000000000000 = none ∧
      Arithmetic.mul.Gives (.text "abcd") (.int 0x4000000000000000) (.error .textTooLong) ∧
      Arithmetic.mul.Gives (.text "") (.int 3) (.ok (.text "")) ∧
      ∃ front back whole,
        Arithmetic.mul.Gives (.text "é") (.int 2) (.ok front) ∧
        Arithmetic.mul.Gives (.text "é") (.int 3) (.ok back) ∧
        Arithmetic.mul.Gives (.text "é") (.int (2 + 3)) (.ok whole) ∧
        Arithmetic.add.Gives front back (.ok whole) := by
  obtain ⟨hguard, -, -, -, -, hmore, -⟩ :=
    text_operations_respect_limit "abcd" "" 0x4000000000000000
  obtain ⟨-, -, -, -, -, -, hempty, hjoined⟩ := text_operations_respect_limit "é" "" 3
  exact ⟨by decide, by decide, by decide, by decide, by decide, (hguard _ _).2.1.2 (by decide),
    hmore.2 (by decide), hempty (by decide), hjoined 2 (by decide) (by decide) (by decide) (by decide)⟩

end Texts

end Stackline
