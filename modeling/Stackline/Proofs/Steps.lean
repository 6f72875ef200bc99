import Stackline.Machine
import Stackline.Proofs.Shapes

/-! All that a single step can do. Proofs about steps start from the cases given here and do not open
the functions that make them. -/
namespace Stackline

variable {σ : Type} [Output σ]

namespace Instruction

section

variable (labels : Labels) (head : Token) (args : List Token) (stack : Stack) (output : σ)

/-- What an instruction whose arguments fit its shape comes to: how execution goes on, and what is
left of the stack and the output. -/
inductive Effect : Instruction → Except Error Flow → Stack → σ → Prop
  | pushed {arg : Token} {rest : List Token} {v : Value} (hargs : args = arg :: rest)
      (hv : arg.operand = .ok v) : Effect push (.ok .next) (stack.push v) output
  | unreadable {arg : Token} {rest : List Token} {e : Error} (hargs : args = arg :: rest)
      (he : arg.operand = .error e) : Effect push (.error e) stack output
  | printed {v : Value} {below : Stack} {after : σ} (hpop : stack.pop head.position = .ok (v, below))
      (hout : Output.accept output v = (.ok (), after)) : Effect print (.ok .next) below after
  | refused {v : Value} {below : Stack} {reason : String} {after : σ}
      (hpop : stack.pop head.position = .ok (v, below))
      (hout : Output.accept output v = (.error reason, after)) :
      Effect print (.error ⟨head.position, .output reason⟩) below after
  | cleared : Effect clear (.ok .next) .empty output
  | doubled {v : Value} {below : Stack} (hpop : stack.pop head.position = .ok (v, below)) :
      Effect dup (.ok .next) ((below.push v).push v) output
  | computed {op : Arithmetic} {a b v : Value} {below : Stack}
      (hpop : stack.popPair head.position = .ok ((a, b), below)) (hv : op.apply a b = .ok v) :
      Effect (compute op) (.ok .next) (below.push v) output
  | undefined {op : Arithmetic} {a b : Value} {cause : Cause} {below : Stack}
      (hpop : stack.popPair head.position = .ok ((a, b), below))
      (hv : op.apply a b = .error cause) :
      Effect (compute op) (.error ⟨head.position, cause⟩) below output
  | lost {c : Condition} {arg : Token} {rest : List Token} {a b : Value} {below : Stack} {e : Error}
      (hargs : args = arg :: rest) (hpop : stack.popPair head.position = .ok ((a, b), below))
      (he : labels.target arg = .error e) : Effect (jump c) (.error e) below output
  | incomparable {c : Condition} {arg : Token} {rest : List Token} {a b : Value} {below : Stack}
      {target : Nat} {cause : Cause} (hargs : args = arg :: rest)
      (hpop : stack.popPair head.position = .ok ((a, b), below))
      (ht : labels.target arg = .ok target) (hc : c.holds a b = .error cause) :
      Effect (jump c) (.error ⟨head.position, cause⟩) below output
  | jumped {c : Condition} {arg : Token} {rest : List Token} {a b : Value} {below : Stack}
      {target : Nat} (hargs : args = arg :: rest)
      (hpop : stack.popPair head.position = .ok ((a, b), below))
      (ht : labels.target arg = .ok target) (hc : c.holds a b = .ok true) :
      Effect (jump c) (.ok (.jump target)) below output
  | passed {c : Condition} {arg : Token} {rest : List Token} {a b : Value} {below : Stack}
      {target : Nat} (hargs : args = arg :: rest)
      (hpop : stack.popPair head.position = .ok ((a, b), below))
      (ht : labels.target arg = .ok target) (hc : c.holds a b = .ok false) :
      Effect (jump c) (.ok .next) below output
  | noValue {i : Instruction} {e : Error} (hi : i = print ∨ i = dup)
      (he : stack.pop head.position = .error e) : Effect i (.error e) stack output
  | noPair {i : Instruction} {e : Error} (hi : (∃ op, i = compute op) ∨ ∃ c, i = jump c)
      (he : stack.popPair head.position = .error e) : Effect i (.error e) stack output

end

variable {labels : Labels} {head : Token} {args : List Token} {stack : Stack} {output : σ}

theorem execute_effect (i : Instruction) (labels : Labels) (stack : Stack) (output : σ)
    (h : i.shape.check head args = .ok ()) :
    Effect labels head args stack output i (i.execute labels head args stack output).1
      (i.execute labels head args stack output).2.1 (i.execute labels head args stack output).2.2 := by
  cases i with
  | push =>
    obtain ⟨arg, rest, rfl⟩ := Shape.exists_arg_of_check_ofKinds (by simp) h
    cases hv : arg.operand with
    | error e => simpa only [execute, hv] using .unreadable rfl hv
    | ok v => simpa only [execute, hv] using .pushed rfl hv
  | print =>
    cases hpop : stack.pop head.position with
    | error e => simpa only [execute, hpop] using .noValue (.inl rfl) hpop
    | ok popped =>
      obtain ⟨v, below⟩ := popped
      cases hout : Output.accept output v with
      | mk result after =>
        cases result with
        | error reason => simpa only [execute, hpop, hout] using .refused hpop hout
        | ok => simpa only [execute, hpop, hout] using .printed hpop hout
  | clear => exact .cleared
  | dup =>
    cases hpop : stack.pop head.position with
    | error e => simpa only [execute, hpop] using .noValue (.inr rfl) hpop
    | ok popped =>
      obtain ⟨v, below⟩ := popped
      simpa only [execute, hpop] using .doubled hpop
  | compute op =>
    cases hpop : stack.popPair head.position with
    | error e => simpa only [execute, hpop] using .noPair (.inl ⟨op, rfl⟩) hpop
    | ok popped =>
      obtain ⟨⟨a, b⟩, below⟩ := popped
      cases hv : op.apply a b with
      | error cause => simpa only [execute, hpop, hv] using .undefined hpop hv
      | ok v => simpa only [execute, hpop, hv] using .computed hpop hv
  | jump c =>
    obtain ⟨arg, rest, rfl⟩ := Shape.exists_arg_of_check_ofKinds (by simp) h
    cases hpop : stack.popPair head.position with
    | error e => simpa only [execute, hpop] using .noPair (.inr ⟨c, rfl⟩) hpop
    | ok popped =>
      obtain ⟨⟨a, b⟩, below⟩ := popped
      cases ht : labels.target arg with
      | error e => simpa only [execute, hpop, ht] using .lost rfl hpop ht
      | ok target =>
        cases hc : c.holds a b with
        | error cause => simpa only [execute, hpop, ht, hc] using .incomparable rfl hpop ht hc
        | ok taken =>
          cases taken with
          | true => simpa only [execute, hpop, ht, hc] using .jumped rfl hpop ht hc
          | false => simpa only [execute, hpop, ht, hc] using .passed rfl hpop ht hc

theorem Effect.execute_eq {i : Instruction} {result : Except Error Flow} {after : Stack} {left : σ}
    (h : Effect labels head args stack output i result after left) :
    i.execute labels head args stack output = (result, after, left) := by
  cases h with
  | pushed hargs hv => simp only [execute, hargs, hv]
  | unreadable hargs he => simp only [execute, hargs, he]
  | printed hpop hout => simp only [execute, hpop, hout]
  | refused hpop hout => simp only [execute, hpop, hout]
  | cleared => rfl
  | doubled hpop => simp only [execute, hpop]
  | computed hpop hv => simp only [execute, hpop, hv]
  | undefined hpop hv => simp only [execute, hpop, hv]
  | lost hargs hpop he => simp only [execute, hargs, hpop, he]
  | incomparable hargs hpop ht hc => simp only [execute, hargs, hpop, ht, hc]
  | jumped hargs hpop ht hc => simp only [execute, hargs, hpop, ht, hc]
  | passed hargs hpop ht hc => simp only [execute, hargs, hpop, ht, hc]
  | noValue hi he => obtain rfl | rfl := hi <;> simp only [execute, he]
  | noPair hi he => obtain ⟨op, rfl⟩ | ⟨c, rfl⟩ := hi <;> simp only [execute, he]

end Instruction

namespace Machine

section

variable (m : Machine σ) (labels : Labels)

/-- What a step on a line comes to: how execution goes on, and what the machine is left as. -/
inductive StepEffect : Line → Except Error Flow → Machine σ → Prop
  | blank : StepEffect [] (.ok .next) m
  | declaration {head : Token} {args : List Token} (hk : head.kind = .word)
      (hw : head.literal = declarationWord) : StepEffect (head :: args) (.ok .next) m
  | label {head : Token} {args : List Token} (hk : head.kind = .label) :
      StepEffect (head :: args) (.ok .next) { m with afterContent := true }
  | titled {head arg : Token} {rest : List Token} (hk : head.kind = .directive)
      (hearly : m.afterContent = false) (hd : Directive.ofName? head.literal = some .title)
      (hs : Directive.title.shape.check head (arg :: rest) = .ok ()) :
      StepEffect (head :: arg :: rest) (.ok .next) { m with title := some arg.literal }
  | late {head : Token} {args : List Token} (hk : head.kind = .directive)
      (hlate : m.afterContent = true) :
      StepEffect (head :: args) (.error ⟨head.position, .directiveAfterCode⟩) m
  | unknownDirective {head : Token} {args : List Token} (hk : head.kind = .directive)
      (hearly : m.afterContent = false) (hd : Directive.ofName? head.literal = none) :
      StepEffect (head :: args) (.error ⟨head.position, .unknownDirective head.literal⟩) m
  | unfitDirective {head : Token} {args : List Token} {d : Directive} {e : Error}
      (hk : head.kind = .directive) (hearly : m.afterContent = false)
      (hd : Directive.ofName? head.literal = some d) (hs : d.shape.check head args = .error e) :
      StepEffect (head :: args) (.error e) m
  | unknownInstruction {head : Token} {args : List Token} (hk : head.kind = .word)
      (hw : head.literal ≠ declarationWord) (hi : Instruction.ofMnemonic? head.literal = none) :
      StepEffect (head :: args) (.error ⟨head.position, .unknownInstruction head.literal⟩)
        { m with afterContent := true }
  | unfitInstruction {head : Token} {args : List Token} {i : Instruction} {e : Error}
      (hk : head.kind = .word) (hw : head.literal ≠ declarationWord)
      (hi : Instruction.ofMnemonic? head.literal = some i)
      (hs : i.shape.check head args = .error e) :
      StepEffect (head :: args) (.error e) { m with afterContent := true }
  | executed {head : Token} {args : List Token} {i : Instruction} {result : Except Error Flow}
      {stack : Stack} {output : σ} (hk : head.kind = .word) (hw : head.literal ≠ declarationWord)
      (hi : Instruction.ofMnemonic? head.literal = some i)
      (hs : i.shape.check head args = .ok ())
      (he : i.Effect labels head args m.stack m.output result stack output) :
      StepEffect (head :: args) result
        { m with stack, output, afterContent := true, steps := m.steps + 1 }
  | stray {head : Token} {args : List Token}
      (hk : head.kind ≠ .label ∧ head.kind ≠ .directive ∧ head.kind ≠ .word) :
      StepEffect (head :: args) (.error ⟨head.position, .unexpectedToken head.kind⟩) m

end

variable {labels : Labels} {head : Token} {args : List Token}

theorem directive_effect (m : Machine σ) (labels : Labels) (hk : head.kind = .directive) :
    StepEffect m labels (head :: args) (m.directive head args).1 (m.directive head args).2 := by
  by_cases hlate : m.afterContent = true
  · simpa only [directive, if_pos hlate] using .late hk hlate
  · have hearly : m.afterContent = false := by simpa using hlate
    cases hd : Directive.ofName? head.literal with
    | none => simpa only [directive, if_neg hlate, hd] using .unknownDirective hk hearly hd
    | some d =>
      cases hs : d.shape.check head args with
      | error e =>
        simpa only [directive, if_neg hlate, hd, hs] using .unfitDirective hk hearly hd hs
      | ok =>
        cases d with
        | title =>
          obtain ⟨arg, rest, rfl⟩ := Shape.exists_arg_of_check_ofKinds (by simp) hs
          simpa only [directive, if_neg hlate, hd, hs] using .titled hk hearly hd hs

theorem instruction_effect (m : Machine σ) (labels : Labels) (hk : head.kind = .word)
    (hw : head.literal ≠ declarationWord) :
    StepEffect m labels (head :: args) (m.instruction labels head args).1
      (m.instruction labels head args).2 := by
  cases hi : Instruction.ofMnemonic? head.literal with
  | none => simpa only [instruction, hi] using .unknownInstruction hk hw hi
  | some i =>
    cases hs : i.shape.check head args with
    | error e => simpa only [instruction, hi, hs] using .unfitInstruction hk hw hi hs
    | ok =>
      simpa only [instruction, hi, hs] using
        .executed hk hw hi hs (i.execute_effect labels m.stack m.output hs)

theorem step_effect {m m' : Machine σ} {line : Line} {result : Except Error Flow}
    (h : m.step labels line = (result, m')) : StepEffect m labels line result m' := by
  suffices hs : StepEffect m labels line (m.step labels line).1 (m.step labels line).2 by
    rwa [h] at hs
  cases line with
  | nil => exact .blank
  | cons head args =>
    cases hk : head.kind with
    | label => simpa only [step, Statement.ofLine, hk] using .label hk
    | directive => simpa only [step, Statement.ofLine, hk] using m.directive_effect labels hk
    | word =>
      by_cases hw : head.literal = declarationWord
      · simpa only [step, Statement.ofLine, hk, hw, if_true] using .declaration hk hw
      · simpa only [step, Statement.ofLine, hk, hw, if_false] using
          m.instruction_effect labels hk hw
    | _ =>
      simpa only [step, Statement.ofLine, hk] using
        (.stray (by simp [hk]) : StepEffect m labels (head :: args) _ _)

theorem StepEffect.step_eq {m m' : Machine σ} {line : Line} {result : Except Error Flow}
    (h : StepEffect m labels line result m') : m.step labels line = (result, m') := by
  cases h with
  | blank => rfl
  | declaration hk hw => simp only [step, Statement.ofLine, hk, hw, if_true]
  | label hk => simp only [step, Statement.ofLine, hk]
  | titled hk hearly hd hs => simp [step, Statement.ofLine, hk, directive, hearly, hd, hs]
  | late hk hlate => simp [step, Statement.ofLine, hk, directive, hlate]
  | unknownDirective hk hearly hd => simp [step, Statement.ofLine, hk, directive, hearly, hd]
  | unfitDirective hk hearly hd hs =>
    simp [step, Statement.ofLine, hk, directive, hearly, hd, hs]
  | unknownInstruction hk hw hi => simp [step, Statement.ofLine, hk, hw, instruction, hi]
  | unfitInstruction hk hw hi hs => simp [step, Statement.ofLine, hk, hw, instruction, hi, hs]
  | executed hk hw hi hs he =>
    simp [step, Statement.ofLine, hk, hw, instruction, hi, hs, he.execute_eq]
  | stray hk =>
    obtain ⟨hlabel, hdirective, hword⟩ := hk
    simp only [step, Statement.ofLine]

def leftWith (m : Machine σ) (stack : Stack) : Machine σ :=
  { m with stack, afterContent := true, steps := m.steps + 1 }

/-- An instruction is done that leaves `below` on the stack and pushes its result, if it has one. -/
def settle (m : Machine σ) (below : Stack) : Except Error Value → Except Error Flow × Machine σ
  | .ok v => (.ok .next, m.leftWith (below.push v))
  | .error e => (.error e, m.leftWith below)

theorem settle_inj {τ : Type} {m : Machine τ} {below : Stack} {r r' : Except Error Value} :
    m.settle below r = m.settle below r' ↔ r = r' := by
  cases r <;> cases r' <;> simp [settle, leftWith, Stack.push]

end Machine

/-- A line of these tokens has the instruction executed. -/
structure Instruction.Invoked (i : Instruction) (head : Token) (args : List Token) : Prop where
  word : head.kind = .word ∧ head.literal = i.mnemonic
  fits : i.shape.check head args = .ok ()

theorem Instruction.mnemonic_ne_declarationWord (i : Instruction) :
    i.mnemonic ≠ declarationWord := by
  cases i with
  | compute op => cases op <;> decide
  | jump c => cases c <;> decide
  | _ => decide

theorem Machine.step_of_invoked {i : Instruction} {labels : Labels} {head : Token}
    {args : List Token} {m : Machine σ} {result : Except Error Flow} {stack : Stack} {output : σ}
    (h : i.Invoked head args)
    (he : i.Effect labels head args m.stack m.output result stack output) :
    m.step labels (head :: args) = (result, { m.leftWith stack with output }) := by
  have hw : head.literal ≠ declarationWord := by
    rw [h.word.2]
    exact i.mnemonic_ne_declarationWord
  have hi : Instruction.ofMnemonic? head.literal = some i := by
    rw [h.word.2, Instruction.ofMnemonic?_mnemonic]
  exact StepEffect.step_eq (.executed h.word.1 hw hi h.fits he)

end Stackline
