/-! Numbers of the 64-bit binary interchange format, held as bit patterns: patterns that all mean
"not a number" stay apart, and so do the two zeros. -/
namespace Stackline

structure Binary64 where
  bits : UInt64
  deriving DecidableEq, Inhabited

namespace Binary64

def isNegative (x : Binary64) : Bool :=
  x.bits >>> 63 == 1

def exponent (x : Binary64) : Nat :=
  (x.bits >>> 52 &&& 0x7ff).toNat

def fraction (x : Binary64) : Nat :=
  (x.bits &&& 0xfffffffffffff).toNat

def isNaN (x : Binary64) : Bool :=
  x.exponent == 2047 && x.fraction != 0

def isInfinite (x : Binary64) : Bool :=
  x.exponent == 2047 && x.fraction == 0

def isZero (x : Binary64) : Bool :=
  x.exponent == 0 && x.fraction == 0

def hiddenBit : Nat :=
  0x10000000000000

/-- A finite number is its significand times `2 ^ scale` units, a unit being `2 ^ (-1074)`. -/
def significand (x : Binary64) : Nat :=
  if x.exponent = 0 then x.fraction else hiddenBit + x.fraction

def scale (x : Binary64) : Nat :=
  x.exponent - 1

def units (x : Binary64) : Nat :=
  x.significand <<< x.scale

/-- The number of the given sign and magnitude in units, if it needs no rounding. -/
def ofUnits (negative : Bool) (u : Nat) : Binary64 :=
  let magnitude :=
    if u < hiddenBit then u
    else
      let shift := u.log2 - 52
      (shift + 1) * hiddenBit + ((u >>> shift) - hiddenBit)
  ⟨UInt64.ofNat (magnitude + if negative then 0x8000000000000000 else 0)⟩

/-- The multiple of `2 ^ shift` nearest to `m`, a tie going to the even multiple. -/
def roundAt (shift m : Nat) : Nat :=
  let q := m >>> shift
  let unit := 1 <<< shift
  let cut := 2 * (m - q <<< shift)
  if cut < unit ∨ cut = unit ∧ q % 2 = 0 then q <<< shift else (q + 1) <<< shift

/-- The nearest number, a tie going to the even significand: 53 digits are kept. -/
def ofInt (n : Int64) : Binary64 :=
  let m := n.toInt.natAbs
  ofUnits (n < 0) (roundAt (m.log2 - 52) m <<< 1074)

def invalid : Binary64 :=
  ⟨0xfff8000000000000⟩

def quiet (x : Binary64) : Binary64 :=
  ⟨x.bits ||| 0x0008000000000000⟩

def toFloat (x : Binary64) : Float :=
  Float.ofBits x.bits

def ofFloat (f : Float) : Binary64 :=
  if f.isNaN then invalid else ⟨f.toBits⟩

/-- Lifts an operation: an operand that is not a number is passed on, the left one first. -/
def lift (op : Binary64 → Binary64 → Binary64) (x y : Binary64) : Binary64 :=
  if x.isNaN then x.quiet else if y.isNaN then y.quiet else op x y

instance : Add Binary64 := ⟨lift fun x y => ofFloat (x.toFloat + y.toFloat)⟩
instance : Sub Binary64 := ⟨lift fun x y => ofFloat (x.toFloat - y.toFloat)⟩
instance : Mul Binary64 := ⟨lift fun x y => ofFloat (x.toFloat * y.toFloat)⟩
instance : Div Binary64 := ⟨lift fun x y => ofFloat (x.toFloat / y.toFloat)⟩

/-- The remainder of the quotient cut off toward zero: exact, and of the sign of the dividend. -/
def remainder : Binary64 → Binary64 → Binary64 :=
  lift fun x y =>
    if x.isInfinite || y.isZero then invalid
    else if y.isInfinite then x
    else ofUnits x.isNegative (x.units % y.units)

instance : Mod Binary64 := ⟨remainder⟩

/-- Numeric order; nothing is below or above a pattern that is not a number. -/
def lt (x y : Binary64) : Bool :=
  decide (x.toFloat < y.toFloat)

end Binary64
end Stackline
