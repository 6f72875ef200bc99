import Stackline.Directive
import Stackline.Execution

/-! The machine walks over the lines of a program. Blank lines, labels and declarations do nothing;
directives are only for the top of a program; instructions work on the stack. -/
namespace Stackline

structure Machine (σ : Type) where
  stack : Stack := .empty
  title : Option String := none
  pc : Nat := 0
  /-- Set by the first label or instruction. -/
  afterContent : Bool := false
  /-- Counts the instructions whose arguments were in order. The count has no bound; runs are
  assumed to take fewer than `2 ^ 64` steps, so that a word of 64 bits would hold it. -/
  steps : Nat := 0
  output : σ

inductive Status where
  | running
  | finished
  | failed (e : Error)
  deriving DecidableEq, Inhabited

namespace Machine

variable {σ : Type}

def directive (m : Machine σ) (head : Token) (args : List Token) : Except Error Flow × Machine σ :=
  if m.afterContent then (.error ⟨head.position, .directiveAfterCode⟩, m)
  else
    match Directive.ofName? head.literal with
    | none => (.error ⟨head.position, .unknownDirective head.literal⟩, m)
    | some d =>
      match d.shape.check head args with
      | .error e => (.error e, m)
      | .ok () =>
        match d, args with
        | .title, arg :: _ => (.ok .next, { m with title := some arg.literal })
        | .title, [] => (.error ⟨head.position, .internal .missingArgument⟩, m)

def follow (m : Machine σ) : Flow → Machine σ
  | .next => { m with pc := m.pc + 1 }
  | .jump target => { m with pc := target }

variable [Output σ]

def instruction (m : Machine σ) (labels : Labels) (head : Token) (args : List Token) :
    Except Error Flow × Machine σ :=
  match m with
  | ⟨stack, title, pc, _, steps, output⟩ =>
    match Instruction.ofMnemonic? head.literal with
    | none =>
      (.error ⟨head.position, .unknownInstruction head.literal⟩,
        ⟨stack, title, pc, true, steps, output⟩)
    | some i =>
      match i.shape.check head args with
      | .error e => (.error e, ⟨stack, title, pc, true, steps, output⟩)
      | .ok () =>
        match i.execute labels head args stack output with
        | (result, stack, output) => (result, ⟨stack, title, pc, true, steps + 1, output⟩)

def step (m : Machine σ) (labels : Labels) (line : Line) : Except Error Flow × Machine σ :=
  match Statement.ofLine line with
  | .blank => (.ok .next, m)
  | .declaration _ _ => (.ok .next, m)
  | .label _ _ => (.ok .next, { m with afterContent := true })
  | .directive head args => m.directive head args
  | .instruction head args => m.instruction labels head args
  | .stray head _ => (.error ⟨head.position, .unexpectedToken head.kind⟩, m)

/-- One turn of the execution loop. The run is over once there is no line to execute; after a
failure the machine stays at the line that failed. -/
def advance (p : Program) (m : Machine σ) : Status × Machine σ :=
  match p.lines[m.pc]? with
  | none => (.finished, m)
  | some line =>
    match m.step p.labels line with
    | (.error e, m) => (.failed e, m)
    | (.ok flow, m) => (.running, m.follow flow)

def run (p : Program) : Nat → Machine σ → Status × Machine σ
  | 0, m => (.running, m)
  | fuel + 1, m =>
    match advance p m with
    | (.running, m) => run p fuel m
    | (status, m) => (status, m)

theorem run_add (p : Program) (a b : Nat) (m : Machine σ) :
    run p (a + b) m =
      match run p a m with
      | (.running, m) => run p b m
      | (status, m) => (status, m) := by
  induction a generalizing m with
  | zero => simp [run]
  | succ a ih =>
    rw [Nat.add_right_comm]
    simp only [run]
    rcases advance p m with ⟨status, m'⟩
    cases status with
    | running => exact ih m'
    | finished => rfl
    | failed e => rfl

end Machine
end Stackline
