import Stackline.Proofs.Errors

/-! What a step that fails leaves behind. Operands are popped before anything is found out about
them, and stay popped; the error tells how many they were, and whether the instruction was
counted. -/
namespace Stackline

/-- How many values have been popped when the cause comes up. -/
def Cause.popped : Cause → Nat
  | invalidTypes _ _ _ | divisionByZero | negativeRepeat | textTooLong | unknownLabel _ => 2
  | output _ => 1
  | _ => 0

/-- The cause comes up while an instruction is at work, after its arguments were found in order. -/
def Cause.isOfEffect : Cause → Bool
  | stackUnderflow | invalidTypes _ _ _ | divisionByZero | negativeRepeat | textTooLong
  | integerOutOfRange _ | unknownLabel _ | output _ => true
  | _ => false

def Line.IsExecutable (line : Line) : Prop :=
  ∃ head args i, line = head :: args ∧ head.kind = .word ∧ head.literal ≠ declarationWord ∧
    Instruction.ofMnemonic? head.literal = some i ∧ i.shape.check head args = .ok ()

def Stack.Without (s : Stack) (k : Nat) (after : Stack) : Prop :=
  ∃ top : List Value, top.length = k ∧ s.items = top ++ after.items

theorem Line.isExecutable_cons {head : Token} {args : List Token} :
    IsExecutable (head :: args) ↔ head.kind = .word ∧ head.literal ≠ declarationWord ∧
      ∃ i, Instruction.ofMnemonic? head.literal = some i ∧ i.shape.check head args = .ok () := by
  constructor
  · intro h
    obtain ⟨_, _, i, hline, hk, hw, hi, hs⟩ := h
    cases hline
    exact ⟨hk, hw, i, hi, hs⟩
  · intro h
    obtain ⟨hk, hw, i, hi, hs⟩ := h
    exact ⟨head, args, i, rfl, hk, hw, hi, hs⟩

namespace Cause

variable {c : Cause}

theorem isOfEffect_iff : c.isOfEffect = true ↔ c.origin = .values ∨ c.origin = .effect := by
  cases c <;> simp [isOfEffect, origin]

theorem popped_of_values (h : c.origin = .values) : c.popped = 2 := by
  cases c <;> simp [origin, popped] at h ⊢

theorem popped_of_not_isOfEffect (h : c.isOfEffect = false) : c.popped = 0 := by
  cases c <;> simp [isOfEffect, popped] at h ⊢

end Cause

namespace Stack

variable {s below : Stack} {p : Position}

theorem without_zero (s : Stack) : s.Without 0 s :=
  ⟨[], rfl, rfl⟩

theorem without_of_pop {v : Value} (h : s.pop p = .ok (v, below)) : s.Without 1 below :=
  ⟨[v], rfl, by rw [pop_eq_ok.1 h]; rfl⟩

theorem without_of_popPair {a b : Value} (h : s.popPair p = .ok ((a, b), below)) :
    s.Without 2 below :=
  ⟨[b, a], rfl, by rw [popPair_eq_ok.1 h]; rfl⟩

end Stack

variable {σ : Type} [Output σ] {e : Error}

theorem Instruction.Effect.left_of_error {i : Instruction} {labels : Labels} {head : Token}
    {args : List Token} {stack after : Stack} {output left : σ}
    (h : i.Effect labels head args stack output (.error e) after left) :
    stack.Without e.cause.popped after ∧ (left = output ∨ ∃ reason, e.cause = .output reason) := by
  cases h with
  | unreadable hargs he =>
    rw [Token.operand_error he]
    exact ⟨stack.without_zero, Or.inl rfl⟩
  | refused hpop hout => exact ⟨Stack.without_of_pop hpop, Or.inr ⟨_, rfl⟩⟩
  | undefined hpop hv =>
    rw [Cause.popped_of_values (Arithmetic.apply_error hv)]
    exact ⟨Stack.without_of_popPair hpop, Or.inl rfl⟩
  | lost hargs hpop he =>
    rw [Labels.target_error he]
    exact ⟨Stack.without_of_popPair hpop, Or.inl rfl⟩
  | incomparable hargs hpop ht hc =>
    rw [Cause.popped_of_values (Condition.holds_error hc)]
    exact ⟨Stack.without_of_popPair hpop, Or.inl rfl⟩
  | noValue hi he =>
    rw [Stack.pop_error he]
    exact ⟨stack.without_zero, Or.inl rfl⟩
  | noPair hi he =>
    rw [Stack.popPair_error he]
    exact ⟨stack.without_zero, Or.inl rfl⟩

namespace Machine

variable {m m' : Machine σ} {labels : Labels} {line : Line}

theorem step_error_cases (h : m.step labels line = (.error e, m')) :
    (line.IsExecutable ∧ e.cause.isOfEffect = true ∧
      ∃ stack output, m' = { m with stack, output, afterContent := true, steps := m.steps + 1 } ∧
        m.stack.Without e.cause.popped stack ∧
        (output = m.output ∨ ∃ reason, e.cause = .output reason)) ∨
    (¬line.IsExecutable ∧ e.cause.isOfEffect = false ∧
      m' = { m with afterContent := m'.afterContent }) := by
  have hcheck (hs : e.cause.origin = .arguments) : e.cause.isOfEffect = false := by
    rw [Bool.eq_false_iff, ne_eq, Cause.isOfEffect_iff]
    simp [hs]
  cases step_effect h with
  | executed hk hw hi hs he =>
    have hexec : Line.IsExecutable (_ :: _) := Line.isExecutable_cons.2 ⟨hk, hw, _, hi, hs⟩
    exact Or.inl ⟨hexec, Cause.isOfEffect_iff.2 he.error, _, _, rfl, he.left_of_error⟩
  | late hk hlate => exact Or.inr ⟨by simp [Line.isExecutable_cons, hk], rfl, rfl⟩
  | unknownDirective hk hearly hd => exact Or.inr ⟨by simp [Line.isExecutable_cons, hk], rfl, rfl⟩
  | unfitDirective hk hearly hd hs =>
    exact Or.inr ⟨by simp [Line.isExecutable_cons, hk], hcheck (Shape.check_error hs), rfl⟩
  | unknownInstruction hk hw hi => exact Or.inr ⟨by simp [Line.isExecutable_cons, hi], rfl, rfl⟩
  | unfitInstruction hk hw hi hs =>
    exact Or.inr ⟨by simp [Line.isExecutable_cons, hi, hs], hcheck (Shape.check_error hs), rfl⟩
  | stray hk => exact Or.inr ⟨by simp [Line.isExecutable_cons, hk.2.2], rfl, rfl⟩

end Machine

/-- After a step that fails, the machine is where it was and has the title it had. Its output has
changed only if the output is what failed. The stack is without as many values as the error tells,
and the instruction was counted exactly if it was at work. -/
theorem failed_step_state {m m' : Machine σ} {labels : Labels} {line : Line}
    (h : m.step labels line = (.error e, m')) :
    m'.pc = m.pc ∧ m'.title = m.title ∧
      (m'.output = m.output ∨ ∃ reason, e.cause = .output reason) ∧
      m.stack.Without e.cause.popped m'.stack ∧
      m'.steps = m.steps + (if e.cause.isOfEffect then 1 else 0) ∧
      (e.cause.isOfEffect = true ↔ line.IsExecutable) := by
  cases Machine.step_error_cases h with
  | inl hwork =>
    obtain ⟨hline, hcause, stack, output, rfl, hstack, hout⟩ := hwork
    exact ⟨rfl, rfl, hout, hstack, by simp [hcause], by simp [hcause, hline]⟩
  | inr hbefore =>
    obtain ⟨hline, hcause, hm⟩ := hbefore
    rw [hm, Cause.popped_of_not_isOfEffect hcause]
    exact ⟨rfl, rfl, Or.inl rfl, m.stack.without_zero, by simp [hcause], by simp [hcause, hline]⟩

def mixedOperands : Machine PrintedValues :=
  { stack := .ofList [.int 7, .text "a", .int 1], title := some "t", pc := 3, steps := 4,
    output := {} }

theorem failed_step_state_of_mixedOperands :
    (∃ m', mixedOperands.step [] [⟨.word, "add", ⟨3, 0⟩⟩] =
        (.error ⟨⟨3, 0⟩, .invalidTypes .addition .text .int⟩, m') ∧
      m'.pc = 3 ∧ m'.title = some "t" ∧ mixedOperands.stack.Without 2 m'.stack ∧
      m'.stack.toList = [.int 7] ∧ m'.steps = 5) ∧
    ∃ m', mixedOperands.step [] [⟨.word, "add", ⟨3, 0⟩⟩, ⟨.number, "1", ⟨3, 4⟩⟩] =
        (.error ⟨⟨3, 4⟩, .expectedEndOfLine .number⟩, m') ∧
      mixedOperands.stack.Without 0 m'.stack ∧ m'.steps = 4 := by
  constructor
  · have h : mixedOperands.step [] [⟨.word, "add", ⟨3, 0⟩⟩] =
        (.error ⟨⟨3, 0⟩, .invalidTypes .addition .text .int⟩,
          ⟨.ofList [.int 7], some "t", 3, true, 5, {}⟩) := rfl
    obtain ⟨hpc, htitle, -, hstack, hsteps, -⟩ := failed_step_state h
    exact ⟨_, h, hpc, htitle, hstack, rfl, hsteps⟩
  · have h : mixedOperands.step [] [⟨.word, "add", ⟨3, 0⟩⟩, ⟨.number, "1", ⟨3, 4⟩⟩] =
        (.error ⟨⟨3, 4⟩, .expectedEndOfLine .number⟩,
          { mixedOperands with afterContent := true }) := rfl
    obtain ⟨-, -, -, hstack, hsteps, -⟩ := failed_step_state h
    exact ⟨_, h, hstack, hsteps⟩

end Stackline
