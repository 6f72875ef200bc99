import Stackline.Machine

/-! The story of a run: which instructions it executed, and what the stack held after each. -/
namespace Stackline

inductive Event where
  | resolved (labels aliases : Nat)
  /-- Lines count from one. -/
  | executed (line : Nat) (instruction : Instruction) (stack : Stack)
  | finished (steps : Nat) (stack : Stack)
  deriving DecidableEq, Inhabited

inductive Field where
  | number (n : Nat)
  | text (s : String)
  deriving DecidableEq, Inhabited

structure Record where
  message : String
  fields : List (String × Field)
  deriving DecidableEq, Inhabited

def Event.record : Event → Record
  | resolved labels aliases =>
    ⟨"resolved program", [("labels", .number labels), ("aliases", .number aliases)]⟩
  | executed line instruction stack =>
    ⟨"executed",
      [("line", .number line), ("instruction", .text instruction.mnemonic),
        ("stack", .text stack.text)]⟩
  | finished steps stack =>
    ⟨"program finished", [("steps", .number steps), ("stack", .text stack.text)]⟩

def Scope.event (s : Scope) : Event :=
  .resolved s.labels.length s.aliases.length

namespace Machine

variable {σ : Type} [Output σ]

def eventOf? (pc : Nat) (line : Line) (stack : Stack) : Option Event :=
  match Statement.ofLine line with
  | .instruction head _ => (Instruction.ofMnemonic? head.literal).map (.executed (pc + 1) · stack)
  | _ => none

/-- The events of at most `fuel` turns, after those already told, the latest first. -/
def traceFrom (p : Program) : Nat → List Event → Machine σ → List Event
  | 0, told, _ => told
  | fuel + 1, told, m =>
    match p.lines[m.pc]? with
    | none => .finished m.steps m.stack :: told
    | some line =>
      match m.step p.labels line with
      | (.error _, _) => told
      | (.ok flow, after) =>
        traceFrom p fuel ((eventOf? m.pc line after.stack).toList ++ told) (after.follow flow)

def trace (p : Program) (fuel : Nat) (m : Machine σ) : List Event :=
  (traceFrom p fuel [] m).reverse

end Machine
end Stackline
