import Stackline.Instruction
import Stackline.Output
import Stackline.Resolution
import Stackline.Stack

/-! What an instruction does to the stack and the output, and where execution goes on. -/
namespace Stackline

inductive Flow where
  | next
  | jump (target : Nat)
  deriving DecidableEq, Inhabited

variable {σ : Type} [Output σ]

namespace Instruction

/-- Runs an instruction whose arguments fit its shape. The stack and the output are given back as
they are left, also by a failure: operands that were popped stay popped. -/
def execute (i : Instruction) (labels : Labels) (head : Token) (args : List Token) (stack : Stack)
    (output : σ) : Except Error Flow × Stack × σ :=
  let missing : Error := ⟨head.position, .internal .missingArgument⟩
  match i with
  | push =>
    match args with
    | [] => (.error missing, stack, output)
    | arg :: _ =>
      match arg.operand with
      | .error e => (.error e, stack, output)
      | .ok v => (.ok .next, stack.push v, output)
  | print =>
    match stack.pop head.position with
    | .error e => (.error e, stack, output)
    | .ok (v, below) =>
      match Output.accept output v with
      | (.error reason, output) => (.error ⟨head.position, .output reason⟩, below, output)
      | (.ok (), output) => (.ok .next, below, output)
  | clear => (.ok .next, .empty, output)
  | dup =>
    match stack.pop head.position with
    | .error e => (.error e, stack, output)
    | .ok (v, below) => (.ok .next, (below.push v).push v, output)
  | compute op =>
    match stack.popPair head.position with
    | .error e => (.error e, stack, output)
    | .ok ((a, b), below) =>
      match op.apply a b with
      | .error cause => (.error ⟨head.position, cause⟩, below, output)
      | .ok v => (.ok .next, below.push v, output)
  | jump condition =>
    match stack.popPair head.position with
    | .error e => (.error e, stack, output)
    | .ok ((a, b), below) =>
      match args with
      | [] => (.error missing, below, output)
      | arg :: _ =>
        match labels.target arg with
        | .error e => (.error e, below, output)
        | .ok target =>
          match condition.holds a b with
          | .error cause => (.error ⟨head.position, cause⟩, below, output)
          | .ok true => (.ok (.jump target), below, output)
          | .ok false => (.ok .next, below, output)

end Instruction
end Stackline
