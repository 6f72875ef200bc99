import Stackline.Token
import Stackline.Value

/-! What can be wrong with a program, where, and how it is told to its author. -/
namespace Stackline

inductive Operation where
  | addition
  | subtraction
  | multiplication
  | division
  | modulus
  | lessThan
  | greaterThan
  deriving DecidableEq, Inhabited

def Operation.name : Operation → String
  | addition => "addition"
  | subtraction => "subtraction"
  | multiplication => "multiplication"
  | division => "division"
  | modulus => "modulus"
  | lessThan => "less than"
  | greaterThan => "greater than"

/-- A defect of the machine itself: an operation was used outside its domain. -/
inductive Fault where
  | missingArgument
  | zeroDivisor
  | capacityOverflow
  deriving DecidableEq, Inhabited

def Fault.text : Fault → String
  | missingArgument => "missing argument"
  | zeroDivisor => "zero divisor"
  | capacityOverflow => "capacity overflow"

inductive Cause where
  | illegalCharacter (c : Char)
  | invalidEscape (c : Char)
  | unterminatedString
  | expectedEndOfLine (found : Kind)
  | unexpectedEndOfLine (expected : List Kind)
  | unexpectedKind (expected : List Kind) (found : Kind)
  | unexpectedLiteral (expected : List String) (found : String)
  | labelAlreadyDefined (name : String)
  | labelNotAlone
  | emptyLabel
  | unknownAlias (name : String)
  | aliasChain (name : String)
  | directiveAfterCode
  | unknownDirective (name : String)
  | unknownInstruction (name : String)
  | unexpectedToken (found : Kind)
  | stackUnderflow
  | invalidTypes (operation : Operation) (left right : ValueType)
  | divisionByZero
  | negativeRepeat
  | textTooLong
  | integerOutOfRange (literal : String)
  | unknownLabel (name : String)
  | output (reason : String)
  | internal (fault : Fault)
  deriving DecidableEq, Inhabited

def alternatives : List String → String
  | [] => ""
  | [a] => a
  | [a, b] => a ++ "' or '" ++ b
  | options => "', '".intercalate options.dropLast ++ "', or '" ++ options.getLastD ""

def Cause.text : Cause → String
  | illegalCharacter c => "illegal character '" ++ c.toString ++ "'"
  | invalidEscape c => "invalid escape character '" ++ c.toString ++ "'"
  | unterminatedString => "unterminated string literal"
  | expectedEndOfLine found => "expected end of line, found '" ++ found.name ++ "'"
  | unexpectedEndOfLine expected =>
    "expected '" ++ alternatives (expected.map Kind.name) ++ "', found end of line"
  | unexpectedKind expected found =>
    "expected '" ++ alternatives (expected.map Kind.name) ++ "', found '" ++ found.name ++ "'"
  | unexpectedLiteral expected found =>
    "expected '" ++ alternatives expected ++ "', found '" ++ found ++ "'"
  | labelAlreadyDefined name => "label '" ++ name ++ "' already defined"
  | labelNotAlone => "label is not alone on the line"
  | emptyLabel => "labels cannot be empty"
  | unknownAlias name => "unknown alias '" ++ name ++ "'"
  | aliasChain name => "alias '" ++ name ++ "' refers to another alias"
  | directiveAfterCode => "directives can only be used at the top of the file before any code"
  | unknownDirective name => "unknown directive '" ++ name ++ "'"
  | unknownInstruction name => "unknown instruction '" ++ name ++ "'"
  | unexpectedToken found => "unexpected '" ++ found.name ++ "'"
  | stackUnderflow => "stack underflow"
  | invalidTypes operation left right =>
    "invalid types for " ++ operation.name ++ ": '" ++ left.name ++ "' and '" ++ right.name ++ "'"
  | divisionByZero => "division by zero"
  | negativeRepeat => "cannot repeat a string a negative number of times"
  | textTooLong => "text would exceed " ++ Value.maxTextBytes.repr ++ " bytes"
  | integerOutOfRange literal => "integer literal '" ++ literal ++ "' out of range"
  | unknownLabel name => "label '" ++ name ++ "' does not exist"
  | output reason => "failed to write output: " ++ reason
  | internal fault => "internal fault: " ++ fault.text

structure Error where
  position : Position
  cause : Cause
  deriving DecidableEq, Inhabited

def Error.message (e : Error) : String :=
  "error on " ++ e.position.text ++ ": " ++ e.cause.text

end Stackline
