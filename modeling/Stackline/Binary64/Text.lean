import Stackline.Binary64
import Stackline.Decimal.Shortest

/-! Floats as text: the fewest digits that read back as the same number. From `10 ^ (-4)` up to
`10 ^ 16` the text is positional and keeps a fractional part; beyond, it has an exponent. -/
namespace Stackline.Binary64

/-- The reals that round to a finite number other than zero. Bounds are halfway to the neighbours,
the one below being nearer at a power of two, and belong to an even significand. -/
def interval (x : Binary64) : Decimal.Interval :=
  let m := x.significand
  { lower := 4 * m - (if m = hiddenBit ∧ 0 < x.scale then 1 else 2)
    value := 4 * m
    upper := 4 * m + 2
    exponent := (x.scale : Int) - 1076
    closed := m % 2 = 0 }

def zeros (n : Nat) : List Char :=
  List.replicate n '0'

def positional (digits : List Char) (point : Int) : List Char :=
  if point ≤ 0 then '0' :: '.' :: zeros (-point).toNat ++ digits
  else if digits.length ≤ point then digits ++ zeros (point.toNat - digits.length) ++ ['.', '0']
  else digits.take point.toNat ++ '.' :: digits.drop point.toNat

def exponential (digits : List Char) (power : Int) : List Char :=
  let tail := match digits.drop 1 with
    | [] => []
    | rest => '.' :: rest
  digits.take 1 ++ tail ++ 'e' :: power.repr.toList

/-- Writes `coefficient * 10 ^ exponent`; the zeros that end the coefficient are not digits of it. -/
def writeScientific (d : Decimal.Scientific) : List Char :=
  let all := Nat.toDigits 10 d.coefficient
  let digits := (all.reverse.dropWhile (· == '0')).reverse
  let point : Int := all.length + d.exponent
  if -4 < point ∧ point ≤ 16 then positional digits point else exponential digits (point - 1)

def magnitudeText (x : Binary64) : List Char :=
  if x.isInfinite then ['i', 'n', 'f']
  else if x.isZero then ['0', '.', '0']
  else match x.interval.shortest? with
    | some d => writeScientific d
    | none => []

def text (x : Binary64) : String :=
  if x.isNaN then "NaN"
  else String.ofList (if x.isNegative then '-' :: x.magnitudeText else x.magnitudeText)

end Stackline.Binary64
