import Stackline.Error
import Stackline.Text.Length
import Stackline.Text.Repeated

/-! Operations on two values. Integers wrap around at 64 bits; an integer meeting a float becomes
one; texts can be joined and repeated up to a limit. -/
namespace Stackline.Value

def isZero (v : Value) : Bool :=
  v.toBinary64?.any Binary64.isZero

/-- Applies an operation to two numbers of one type, after promotion if they differ. -/
def numeric (operation : Operation) (onInts : Int64 → Int64 → Except Cause Int64)
    (onFloats : Binary64 → Binary64 → Binary64) : Value → Value → Except Cause Value
  | int x, int y => (onInts x y).map int
  | int x, float y => .ok (float (onFloats (.ofInt x) y))
  | float x, int y => .ok (float (onFloats x (.ofInt y)))
  | float x, float y => .ok (float (onFloats x y))
  | a, b => .error (.invalidTypes operation a.type b.type)

/-- A length that no word can hold is above the limit too. -/
def checkLength : Option UInt64 → Except Cause Unit
  | some n => if n ≤ .ofNat maxTextBytes then .ok () else .error .textTooLong
  | none => .error .textTooLong

def join (x y : String) : Except Cause Value := do
  checkLength (Length.add? (Length.ofText x) (Length.ofText y))
  return text (x ++ y)

def maxAddressable : Nat := 0x7fffffffffffffff

def replicate (s : String) (n : Nat) : Except Cause Value :=
  if s.utf8ByteSize * n ≤ maxAddressable then .ok (text (Text.repeated s n))
  else .error (.internal .capacityOverflow)

def times (s : String) (n : Int64) : Except Cause Value :=
  match Length.ofInt? n with
  | none => .error .negativeRepeat
  | some count => do
    checkLength (Length.mul? (Length.ofText s) count)
    replicate s count.toNat

def add : Value → Value → Except Cause Value
  | text x, text y => join x y
  | a, b => numeric .addition (fun x y => .ok (x + y)) (· + ·) a b

def sub : Value → Value → Except Cause Value :=
  numeric .subtraction (fun x y => .ok (x - y)) (· - ·)

def mul : Value → Value → Except Cause Value
  | text s, int n => times s n
  | a, b => numeric .multiplication (fun x y => .ok (x * y)) (· * ·) a b

def quotient (x y : Int64) : Except Cause Int64 :=
  if y = 0 then .error (.internal .zeroDivisor) else .ok (x / y)

def leftover (x y : Int64) : Except Cause Int64 :=
  if y = 0 then .error (.internal .zeroDivisor) else .ok (x % y)

/-- Like `numeric`, for operations that no number can undergo with a zero on the right. -/
def dividing (operation : Operation) (onInts : Int64 → Int64 → Except Cause Int64)
    (onFloats : Binary64 → Binary64 → Binary64) (a b : Value) : Except Cause Value :=
  if a.toBinary64?.isSome && b.isZero then .error .divisionByZero
  else numeric operation onInts onFloats a b

def div : Value → Value → Except Cause Value :=
  dividing .division quotient (· / ·)

def mod : Value → Value → Except Cause Value :=
  dividing .modulus leftover (· % ·)

/-- Compares two numbers: integers exactly, others as floats. -/
def compare (operation : Operation) (onInts : Int64 → Int64 → Bool)
    (onFloats : Binary64 → Binary64 → Bool) : Value → Value → Except Cause Bool
  | int x, int y => .ok (onInts x y)
  | a, b =>
    match a.toBinary64?, b.toBinary64? with
    | some x, some y => .ok (onFloats x y)
    | _, _ => .error (.invalidTypes operation a.type b.type)

def less : Value → Value → Except Cause Bool :=
  compare .lessThan (fun x y => x < y) Binary64.lt

def greater : Value → Value → Except Cause Bool :=
  compare .greaterThan (fun x y => y < x) fun x y => y.lt x

theorem checkLength_ofNat? (n : Nat) :
    checkLength (Length.ofNat? n) = if n ≤ maxTextBytes then .ok () else .error .textTooLong := by
  by_cases hn : n < UInt64.size
  · have hword : UInt64.ofNat n ≤ .ofNat maxTextBytes ↔ n ≤ maxTextBytes := by
      rw [UInt64.le_iff_toNat_le, UInt64.toNat_ofNat', UInt64.toNat_ofNat', Nat.mod_eq_of_lt hn]
      rfl
    simp [Length.ofNat?, hn, checkLength, hword]
  · have habove : ¬n ≤ maxTextBytes := fun hle => hn (Nat.lt_of_le_of_lt hle (by decide))
    simp [Length.ofNat?, hn, checkLength, habove]

theorem checkLength_add? (a b : UInt64) :
    checkLength (Length.add? a b) =
      if a.toNat + b.toNat ≤ maxTextBytes then .ok () else .error .textTooLong := by
  rw [Length.add?_eq, checkLength_ofNat?]

/-- The check decides by the exact product, also where the product of the words is another. -/
theorem checkLength_mul? (a b : UInt64) :
    checkLength (Length.mul? a b) =
      if a.toNat * b.toNat ≤ maxTextBytes then .ok () else .error .textTooLong := by
  rw [Length.mul?_eq, checkLength_ofNat?]

theorem join_eq (x y : String) :
    join x y =
      if x.utf8ByteSize + y.utf8ByteSize ≤ maxTextBytes then .ok (text (x ++ y))
      else .error .textTooLong := by
  have hlimit : maxTextBytes < UInt64.size - 1 := by decide
  simp only [join, checkLength_add?, Length.ofText_add_le_iff hlimit]
  split <;> rfl

/-- What passes the check can be addressed, so that no repetition fails in the middle. -/
theorem times_eq (s : String) (n : Int64) :
    times s n =
      if n < 0 then .error .negativeRepeat
      else if s.utf8ByteSize * n.toInt.toNat ≤ maxTextBytes then
        .ok (text (Text.repeated s n.toInt.toNat))
      else .error .textTooLong := by
  have hlimit : maxTextBytes < UInt64.size - 1 := by decide
  by_cases hn : n < 0
  · simp only [times, Length.ofInt?_eq_none.2 hn, if_pos hn]
  · simp only [times, Length.ofInt?_eq_some hn, if_neg hn, checkLength_mul?,
      Length.toNat_toUInt64 hn, Length.ofText_mul_le_iff hlimit]
    split
    · rename_i hle
      have haddressable : s.utf8ByteSize * n.toInt.toNat ≤ maxAddressable :=
        Nat.le_trans hle (by decide)
      exact if_pos haddressable
    · rfl

end Stackline.Value
