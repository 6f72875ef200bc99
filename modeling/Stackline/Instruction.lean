import Stackline.Arithmetic
import Stackline.Shape

/-! The instructions of the language: their names, the arguments they take, and their families. -/
namespace Stackline

inductive Arithmetic where
  | add
  | sub
  | mul
  | div
  | mod
  deriving DecidableEq, Inhabited

def Arithmetic.apply : Arithmetic → Value → Value → Except Cause Value
  | add => Value.add
  | sub => Value.sub
  | mul => Value.mul
  | div => Value.div
  | mod => Value.mod

inductive Condition where
  | always
  | equal
  | notEqual
  | less
  | greater
  deriving DecidableEq, Inhabited

def Condition.holds : Condition → Value → Value → Except Cause Bool
  | always, _, _ => .ok true
  | equal, a, b => .ok (a == b)
  | notEqual, a, b => .ok (a != b)
  | less, a, b => a.less b
  | greater, a, b => a.greater b

inductive Instruction where
  | push
  | print
  | clear
  | dup
  | compute (op : Arithmetic)
  | jump (condition : Condition)
  deriving DecidableEq, Inhabited

namespace Instruction

def mnemonic : Instruction → String
  | push => "push"
  | print => "print"
  | clear => "clear"
  | dup => "dup"
  | compute .add => "add"
  | compute .sub => "sub"
  | compute .mul => "mul"
  | compute .div => "div"
  | compute .mod => "mod"
  | jump .always => "j"
  | jump .equal => "jeq"
  | jump .notEqual => "jne"
  | jump .less => "jlt"
  | jump .greater => "jgt"

def all : List Instruction :=
  [push, print, clear, dup, compute .add, compute .sub, compute .mul, compute .div, compute .mod,
    jump .always, jump .equal, jump .notEqual, jump .less, jump .greater]

def ofMnemonic? (name : String) : Option Instruction :=
  all.find? fun i => i.mnemonic == name

/-- A number or a text can be pushed. Jumps name their target with or without its sigil. -/
def shape : Instruction → Shape
  | push => .ofKinds [[.number, .string]]
  | jump _ => .ofKinds [[.word, .label]]
  | _ => .empty

theorem mem_all (i : Instruction) : i ∈ all := by
  cases i with
  | compute op => cases op <;> decide
  | jump c => cases c <;> decide
  | _ => decide

theorem ofMnemonic?_mnemonic (i : Instruction) : ofMnemonic? i.mnemonic = some i := by
  cases i with
  | compute op => cases op <;> rfl
  | jump c => cases c <;> rfl
  | _ => rfl

theorem mnemonic_of_ofMnemonic? {name : String} {i : Instruction} (h : ofMnemonic? name = some i) :
    i.mnemonic = name := by
  simpa using List.find?_some h

end Instruction

def Token.operand (t : Token) : Except Error Value :=
  match t.kind with
  | .number =>
    match Value.readInt? t.literal with
    | some n => .ok (.int n)
    | none => .error ⟨t.position, .integerOutOfRange t.literal⟩
  | _ => .ok (.text t.literal)

end Stackline
