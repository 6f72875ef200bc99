/-! The bytes of a text are counted in words of 64 bits. A sum or a product that is too large for a
word is noticed from the word that is left of it. -/
namespace Stackline.Length

/-- No text in memory has more bytes than a word can count; one that had would be of the greatest
length. -/
def ofText (s : String) : UInt64 :=
  .ofNat (min s.utf8ByteSize (UInt64.size - 1))

def ofInt? (n : Int64) : Option UInt64 :=
  if n < 0 then none else some n.toUInt64

/-- A sum that went past the last word is less than what was added to. -/
def add? (a b : UInt64) : Option UInt64 :=
  if a + b < a then none else some (a + b)

/-- A product that went past the last word, divided by one factor, is not the other. -/
def mul? (a b : UInt64) : Option UInt64 :=
  if a ≠ 0 ∧ a * b / a ≠ b then none else some (a * b)

def ofNat? (n : Nat) : Option UInt64 :=
  if n < UInt64.size then some (.ofNat n) else none

theorem toNat_ofText (s : String) : (ofText s).toNat = min s.utf8ByteSize (UInt64.size - 1) := by
  rw [ofText, UInt64.toNat_ofNat']
  exact Nat.mod_eq_of_lt (Nat.lt_of_le_of_lt (Nat.min_le_right _ _) (by decide))

theorem ofText_add_le_iff {limit : Nat} (h : limit < UInt64.size - 1) (s t : String) :
    (ofText s).toNat + (ofText t).toNat ≤ limit ↔ s.utf8ByteSize + t.utf8ByteSize ≤ limit := by
  rw [toNat_ofText, toNat_ofText]
  omega

theorem ofText_mul_le_iff {limit : Nat} (h : limit < UInt64.size - 1) (s : String) (count : Nat) :
    (ofText s).toNat * count ≤ limit ↔ s.utf8ByteSize * count ≤ limit := by
  by_cases hs : s.utf8ByteSize ≤ UInt64.size - 1
  · rw [toNat_ofText, Nat.min_eq_left hs]
  · rw [toNat_ofText, Nat.min_eq_right (Nat.le_of_not_le hs)]
    cases count with
    | zero => simp
    | succ k =>
      -- Even one copy is too long, whichever way it is counted.
      have hone : UInt64.size - 1 ≤ (UInt64.size - 1) * (k + 1) := Nat.le_mul_of_pos_right _ k.succ_pos
      have hbytes : s.utf8ByteSize ≤ s.utf8ByteSize * (k + 1) := Nat.le_mul_of_pos_right _ k.succ_pos
      omega

theorem ofNat?_eq_none {n : Nat} : ofNat? n = none ↔ UInt64.size ≤ n := by
  simp [ofNat?]

theorem ofInt?_eq_none {n : Int64} : ofInt? n = none ↔ n < 0 := by
  simp [ofInt?]

theorem ofInt?_eq_some {n : Int64} (h : ¬n < 0) : ofInt? n = some n.toUInt64 :=
  if_neg h

theorem toNat_toUInt64 {n : Int64} (h : ¬n < 0) : n.toUInt64.toNat = n.toInt.toNat :=
  Int64.toNat_toUInt64_of_le (Int64.not_lt.1 h)

theorem add_lt_iff (a b : UInt64) : a + b < a ↔ ¬a.toNat + b.toNat < UInt64.size := by
  have ha := a.toNat_lt_size
  have hb := b.toNat_lt_size
  rw [UInt64.lt_iff_toNat_lt, UInt64.toNat_add]
  simp only [UInt64.size] at ha hb ⊢
  omega

/-- What is left of a product past the last word is less than the product, and so is what a factor
and its quotient make. -/
theorem mul_div_eq_iff {a b : UInt64} (h : a ≠ 0) :
    a * b / a = b ↔ a.toNat * b.toNat < UInt64.size := by
  have hpos : 0 < a.toNat := Nat.pos_of_ne_zero fun hz => h (UInt64.toNat_inj.1 hz)
  rw [← UInt64.toNat_inj, UInt64.toNat_div, UInt64.toNat_mul]
  constructor
  · intro hdiv
    have hle : b.toNat * a.toNat ≤ a.toNat * b.toNat % 2 ^ 64 :=
      (Nat.le_div_iff_mul_le hpos).1 (Nat.le_of_eq hdiv.symm)
    rw [Nat.mul_comm] at hle
    exact Nat.lt_of_le_of_lt hle (Nat.mod_lt _ (by decide))
  · intro hlt
    rw [Nat.mod_eq_of_lt hlt, Nat.mul_div_cancel_left _ hpos]

theorem add?_eq (a b : UInt64) : add? a b = ofNat? (a.toNat + b.toNat) := by
  simp only [add?, ofNat?, add_lt_iff, ite_not, UInt64.ofNat_add, UInt64.ofNat_toNat]

theorem mul?_eq (a b : UInt64) : mul? a b = ofNat? (a.toNat * b.toNat) := by
  by_cases ha : a = 0
  · simp [mul?, ofNat?, ha]
  · simp only [mul?, ofNat?, ne_eq, ha, not_false_eq_true, true_and, mul_div_eq_iff ha, ite_not,
      UInt64.ofNat_mul, UInt64.ofNat_toNat]

end Stackline.Length
