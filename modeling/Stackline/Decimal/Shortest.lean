/-! The shortest decimal that lies between two bounds around a value. The value and the bounds are
integer multiples of one power of two, so every comparison is exact. -/
namespace Stackline.Decimal

/-- A value and the interval of those that round to it, all in units of `2 ^ exponent`. -/
structure Interval where
  lower : Nat
  value : Nat
  upper : Nat
  exponent : Int
  /-- Whether the bounds themselves belong to the interval. -/
  closed : Bool

structure Scientific where
  coefficient : Nat
  exponent : Int
  deriving DecidableEq

namespace Interval

/-- `(p, q)` with `2 ^ exponent / 10 ^ k = p / q`. -/
def ratio (i : Interval) (k : Int) : Nat × Nat :=
  (Nat.pow 10 (-k).toNat <<< i.exponent.toNat, Nat.pow 10 k.toNat <<< (-i.exponent).toNat)

def holds (i : Interval) (p q c : Nat) : Bool :=
  if i.closed then i.lower * p ≤ c * q && c * q ≤ i.upper * p
  else i.lower * p < c * q && c * q < i.upper * p

/-- The multiple of `10 ^ k` in the interval that is nearest to the value. A tie goes up. -/
def nearest? (i : Interval) (k : Int) : Option Nat :=
  let (p, q) := i.ratio k
  let below := i.value * p / q
  let above := below + 1
  match i.holds p q below, i.holds p q above with
  | true, true => if 2 * (i.value * p) < (below + above) * q then some below else some above
  | true, false => some below
  | false, true => some above
  | false, false => none

/-- Tries `10 ^ k` and then finer powers of ten, `steps` in all. -/
def search (i : Interval) (k : Int) : Nat → Option Scientific
  | 0 => none
  | steps + 1 =>
    match i.nearest? k with
    | some c => some ⟨c, k⟩
    | none => i.search (k - 1) steps

def ceiling (i : Interval) : Int :=
  (i.exponent + i.upper.log2 + 1) * 30103 / 100000 + 1

def shortest? (i : Interval) : Option Scientific :=
  i.search i.ceiling 20

end Interval
end Stackline.Decimal
