import Stackline.Interpreter
import Stackline.Proofs.Runs

/-! Runs of whole programs, seen from outside: how they end and what they leave in the output. -/
namespace Stackline

variable {σ : Type}

namespace Machine

variable {status : Status} {m : Machine σ}

theorem outcome_eq_unfinished : m.outcome status = .unfinished ↔ status = .running := by
  cases status <;> simp [outcome]

theorem outcome_eq_finished {report : Report} :
    m.outcome status = .finished report ↔ status = .finished ∧ m.report = report := by
  cases status <;> simp [outcome]

theorem outcome_eq_failed {e : Error} : m.outcome status = .failed e ↔ status = .failed e := by
  cases status <;> simp [outcome]

end Machine

variable [Output σ] {p : Program} {output left : σ}

theorem Program.run_eq (p : Program) (fuel : Nat) (output : σ) :
    p.run fuel output =
      ((Machine.run p fuel { output }).2.outcome (Machine.run p fuel { output }).1,
        (Machine.run p fuel { output }).2.output) := rfl

theorem Program.run_eq_finished {fuel : Nat} {report : Report} :
    p.run fuel output = (.finished report, left) ↔
      ∃ m, Machine.run p fuel { output } = (.finished, m) ∧ m.report = report ∧
        m.output = left := by
  cases hr : Machine.run p fuel { output } with
  | mk status m => simp [Program.run_eq, hr, Machine.outcome_eq_finished, and_assoc]

theorem Program.run_eq_failed {fuel : Nat} {e : Error} :
    p.run fuel output = (.failed e, left) ↔
      ∃ m, Machine.run p fuel { output } = (.failed e, m) ∧ m.output = left := by
  cases hr : Machine.run p fuel { output } with
  | mk status m => simp [Program.run_eq, hr, Machine.outcome_eq_failed]

theorem runLines_of_ofLines {lines : List Line} (h : Program.ofLines lines = .ok p) (fuel : Nat)
    (output : σ) : runLines fuel lines output = p.run fuel output := by
  simp only [runLines, h]

def Program.ofText (text : String) : Except Error Program :=
  match Line.ofText text with
  | .error e => .error e
  | .ok lines => Program.ofLines lines

theorem runText_eq (fuel : Nat) (text : String) (output : σ) :
    runText fuel text output =
      match Program.ofText text with
      | .error e => (.failed e, output)
      | .ok p => p.run fuel output := by
  simp only [runText, Program.ofText]
  cases Line.ofText text <;> rfl

/-- Running the text ends like this, given enough fuel. -/
def TextEnds (text : String) (output : σ) (outcome : Outcome) (left : σ) : Prop :=
  outcome ≠ .unfinished ∧ ∃ fuel, runText fuel text output = (outcome, left)

variable {text : String} {outcome : Outcome}

theorem textEnds_of_error {e : Error} (h : Program.ofText text = .error e) :
    TextEnds text output outcome left ↔ outcome = .failed e ∧ left = output := by
  simp only [TextEnds, runText_eq, h, Prod.mk.injEq, exists_const]
  constructor
  · intro hend
    exact ⟨hend.2.1.symm, hend.2.2.symm⟩
  · intro hend
    obtain ⟨rfl, rfl⟩ := hend
    exact ⟨by simp, rfl, rfl⟩

theorem textEnds_of_ok (h : Program.ofText text = .ok p) :
    TextEnds text output outcome left ↔
      ∃ status m, Machine.Ends p { output } status m ∧ outcome = m.outcome status ∧
        left = m.output := by
  simp only [TextEnds, runText_eq, h, Program.run_eq, Prod.mk.injEq]
  constructor
  · intro hend
    obtain ⟨hne, fuel, rfl, rfl⟩ := hend
    exact ⟨_, _, ⟨mt Machine.outcome_eq_unfinished.2 hne, fuel, rfl⟩, rfl, rfl⟩
  · intro hend
    obtain ⟨status, m, ⟨hs, fuel, hrun⟩, rfl, rfl⟩ := hend
    exact ⟨mt Machine.outcome_eq_unfinished.1 hs, fuel, by rw [hrun], by rw [hrun]⟩

end Stackline
