import Stackline.Token.Lexer
import Stackline.Trace

/-! Running whole programs, given as text or as lines. A run has an amount of fuel; one that needs
more is reported as unfinished. -/
namespace Stackline

structure Report where
  title : Option String
  stack : Stack
  /-- Assumed to be less than `2 ^ 64`, as in the machine. -/
  steps : Nat
  deriving DecidableEq, Inhabited

inductive Outcome where
  | finished (report : Report)
  | failed (e : Error)
  | unfinished
  deriving DecidableEq, Inhabited

namespace Machine

variable {σ : Type}

def report (m : Machine σ) : Report :=
  ⟨m.title, m.stack, m.steps⟩

def outcome (m : Machine σ) : Status → Outcome
  | .running => .unfinished
  | .finished => .finished m.report
  | .failed e => .failed e

end Machine

variable {σ : Type} [Output σ]

def Program.run (p : Program) (fuel : Nat) (output : σ) : Outcome × σ :=
  match Machine.run p fuel { output } with
  | (status, m) => (m.outcome status, m.output)

/-- Resolves lines and runs them. What fails before execution prints nothing. -/
def runLines (fuel : Nat) (lines : List Line) (output : σ) : Outcome × σ :=
  match Program.ofLines lines with
  | .error e => (.failed e, output)
  | .ok p => p.run fuel output

def runText (fuel : Nat) (text : String) (output : σ) : Outcome × σ :=
  match Line.ofText text with
  | .error e => (.failed e, output)
  | .ok lines => runLines fuel lines output

def traceLines (fuel : Nat) (lines : List Line) (output : σ) : List Event :=
  match resolve lines with
  | (.error _, _) => []
  | (.ok scope, left) => scope.event :: Machine.trace ⟨left.toArray, scope.labels⟩ fuel { output }

def traceText (fuel : Nat) (text : String) (output : σ) : List Event :=
  match Line.ofText text with
  | .error _ => []
  | .ok lines => traceLines fuel lines output

end Stackline
