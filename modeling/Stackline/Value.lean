import Stackline.Binary64.Text
import Stackline.Text.Quoted

/-! Values that a program computes with. Two values are equal if they are of one type and have the
same content; for floats the content is the bit pattern. -/
namespace Stackline

inductive Value where
  | int (n : Int64)
  | float (x : Binary64)
  | text (s : String)
  deriving DecidableEq, Inhabited

inductive ValueType where
  | int
  | float
  | text
  deriving DecidableEq, Inhabited

def ValueType.name : ValueType → String
  | int => "int"
  | float => "float"
  | text => "string"

namespace Value

def maxTextBytes : Nat := 16 * 1024 * 1024

def type : Value → ValueType
  | int _ => .int
  | float _ => .float
  | text _ => .text

def toBinary64? : Value → Option Binary64
  | int n => some (.ofInt n)
  | float x => some x
  | text _ => none

def render : Value → String
  | int n => n.toInt.repr
  | float x => x.text
  | text s => s

/-- How a value is shown among others: as printed, but texts in quotes. -/
def quoted : Value → String
  | text s => Text.quote s
  | v => v.render

def splitSign : List Char → Bool × List Char
  | '-' :: ds => (true, ds)
  | '+' :: ds => (false, ds)
  | ds => (false, ds)

/-- Reads an optional sign and one or more digits, if the number fits into 64 bits. -/
def readInt? (literal : String) : Option Int64 :=
  let (negative, digits) := splitSign literal.toList
  if digits ≠ [] ∧ digits.all Char.isDigit then
    let magnitude : Int := Nat.ofDigitChars 10 digits 0
    let n := if negative then -magnitude else magnitude
    if Int64.minValue.toInt ≤ n ∧ n ≤ Int64.maxValue.toInt then some (Int64.ofInt n) else none
  else none

end Value
end Stackline
