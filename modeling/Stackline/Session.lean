import Stackline.Input
import Stackline.Interpreter

/-! One output and one input kept over several runs. Each run starts with an empty stack and empty
tables; only what it printed stays. -/
namespace Stackline

structure Session (σ ι : Type) where
  output : σ
  input : ι

namespace Session

variable {σ ι : Type}

def runLines [Output σ] (s : Session σ ι) (fuel : Nat) (lines : List Line) :
    Outcome × Session σ ι :=
  match s with
  | ⟨output, input⟩ =>
    match Stackline.runLines fuel lines output with
    | (outcome, output) => (outcome, ⟨output, input⟩)

def runText [Output σ] (s : Session σ ι) (fuel : Nat) (text : String) : Outcome × Session σ ι :=
  match s with
  | ⟨output, input⟩ =>
    match Stackline.runText fuel text output with
    | (outcome, output) => (outcome, ⟨output, input⟩)

def readLine [Input ι] (s : Session σ ι) : Except ReadError String × Session σ ι :=
  match Input.readLine s.input with
  | (line, input) => (line, { s with input })

end Session
end Stackline
