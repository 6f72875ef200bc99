import Stackline.Proofs.Errors

/-! What lies deep in the stack does not matter. A program that never clears the stack and never
finds it too short does the same over any further values, and leaves these where they are. -/
namespace Stackline

/-- The stack with other values below its own. -/
def Stack.above (s : Stack) (base : List Value) : Stack :=
  .ofList (base ++ s.toList)

namespace Stack

variable {s below : Stack} {base : List Value} {p : Position}

@[simp] theorem items_above (s : Stack) (base : List Value) :
    (s.above base).items = s.items ++ base.reverse := by
  simp [above, ofList, toList]

theorem push_above (s : Stack) (v : Value) (base : List Value) :
    (s.push v).above base = (s.above base).push v := by
  simp [above, ofList, toList, push]

theorem pop_above {v : Value} (h : s.pop p = .ok (v, below)) :
    (s.above base).pop p = .ok (v, below.above base) := by
  rw [pop_eq_ok.1 h, push_above, pop_push]

theorem popPair_above {a b : Value} (h : s.popPair p = .ok ((a, b), below)) :
    (s.above base).popPair p = .ok ((a, b), below.above base) := by
  rw [popPair_eq_ok.1 h, push_above, push_above, popPair_push_push]

end Stack

variable {σ : Type}

def Machine.above (m : Machine σ) (base : List Value) : Machine σ :=
  { m with stack := m.stack.above base }

theorem Machine.follow_above (m : Machine σ) (base : List Value) (flow : Flow) :
    (m.above base).follow flow = (m.follow flow).above base := by
  cases flow <;> rfl

variable [Output σ] {base : List Value} {result : Except Error Flow}

theorem Instruction.Effect.above {i : Instruction} {labels : Labels} {head : Token}
    {args : List Token} {stack after : Stack} {output left : σ}
    (h : i.Effect labels head args stack output result after left) (hclear : i ≠ .clear)
    (hdeep : ∀ q, result ≠ .error ⟨q, .stackUnderflow⟩) :
    i.Effect labels head args (stack.above base) output result (after.above base) left := by
  cases h with
  | pushed hargs hv =>
    rw [Stack.push_above]
    exact .pushed hargs hv
  | unreadable hargs he => exact .unreadable hargs he
  | printed hpop hout => exact .printed (Stack.pop_above hpop) hout
  | refused hpop hout => exact .refused (Stack.pop_above hpop) hout
  | cleared => exact absurd rfl hclear
  | doubled hpop =>
    rw [Stack.push_above, Stack.push_above]
    exact .doubled (Stack.pop_above hpop)
  | computed hpop hv =>
    rw [Stack.push_above]
    exact .computed (Stack.popPair_above hpop) hv
  | undefined hpop hv => exact .undefined (Stack.popPair_above hpop) hv
  | lost hargs hpop he => exact .lost hargs (Stack.popPair_above hpop) he
  | incomparable hargs hpop ht hc => exact .incomparable hargs (Stack.popPair_above hpop) ht hc
  | jumped hargs hpop ht hc => exact .jumped hargs (Stack.popPair_above hpop) ht hc
  | passed hargs hpop ht hc => exact .passed hargs (Stack.popPair_above hpop) ht hc
  | noValue hi he =>
    rw [Stack.pop_error he] at hdeep
    exact absurd rfl (hdeep _)
  | noPair hi he =>
    rw [Stack.popPair_error he] at hdeep
    exact absurd rfl (hdeep _)

namespace Machine

theorem StepEffect.above {m m' : Machine σ} {labels : Labels} {line : Line}
    (h : m.StepEffect labels line result m')
    (hclear : line.head?.any (·.isExactly .word "clear") = false)
    (hdeep : ∀ q, result ≠ .error ⟨q, .stackUnderflow⟩) :
    (m.above base).StepEffect labels line result (m'.above base) := by
  cases h with
  | blank => exact .blank
  | declaration hk hw => exact .declaration hk hw
  | label hk => exact .label hk
  | titled hk hearly hd hs => exact .titled hk hearly hd hs
  | late hk hlate => exact .late hk hlate
  | unknownDirective hk hearly hd => exact .unknownDirective hk hearly hd
  | unfitDirective hk hearly hd hs => exact .unfitDirective hk hearly hd hs
  | unknownInstruction hk hw hi => exact .unknownInstruction hk hw hi
  | unfitInstruction hk hw hi hs => exact .unfitInstruction hk hw hi hs
  | executed hk hw hi hs he =>
    refine .executed hk hw hi hs (he.above ?_ hdeep)
    intro heq
    subst heq
    have hname := Instruction.mnemonic_of_ofMnemonic? hi
    simp [Token.isExactly, hk, ← hname, Instruction.mnemonic] at hclear
  | stray hk => exact .stray hk

theorem advance_above {p : Program}
    (hclear : ∀ line ∈ p.lines, line.head?.any (·.isExactly .word "clear") = false)
    {m m' : Machine σ} {status : Status} (h : advance p m = (status, m'))
    (hdeep : ∀ q, status ≠ .failed ⟨q, .stackUnderflow⟩) :
    advance p (m.above base) = (status, m'.above base) := by
  have hstep {line : Line} (hline : p.lines[m.pc]? = some line) {result : Except Error Flow}
      {after : Machine σ} (hs : m.step p.labels line = (result, after))
      (hr : ∀ q, result ≠ .error ⟨q, .stackUnderflow⟩) :
      (m.above base).step p.labels line = (result, after.above base) :=
    ((step_effect hs).above (hclear line (Array.mem_of_getElem? hline)) hr).step_eq
  cases status with
  | running =>
    obtain ⟨line, flow, after, hline, hs, rfl⟩ := advance_eq_running.1 h
    exact advance_eq_running.2
      ⟨line, flow, after.above base, hline, hstep hline hs (by simp), follow_above after base flow⟩
  | finished =>
    obtain ⟨hnone, rfl⟩ := advance_eq_finished.1 h
    exact advance_eq_finished.2 ⟨hnone, rfl⟩
  | failed e =>
    obtain ⟨line, hline, hs⟩ := advance_eq_failed.1 h
    exact advance_eq_failed.2 ⟨line, hline, hstep hline hs (by simpa using hdeep)⟩

end Machine

/-- Whatever the machine does over its stack it does over further values as well, with the same end,
and they are still below what is left of the stack then. -/
theorem stack_locality {p : Program} (base : List Value)
    (hclear : ∀ line ∈ p.lines, line.head?.any (·.isExactly .word "clear") = false)
    {fuel : Nat} {m m' : Machine σ} {status : Status} (h : Machine.run p fuel m = (status, m'))
    (hdeep : ∀ q, status ≠ .failed ⟨q, .stackUnderflow⟩) :
    Machine.run p fuel { m with stack := .ofList (base ++ m.stack.toList) } =
      (status, { m' with stack := .ofList (base ++ m'.stack.toList) }) :=
  Machine.run_lockstep (·.above base) (fun status => ∀ q, status ≠ .failed ⟨q, .stackUnderflow⟩)
    (by simp)
    (fun _ _ _ ha hs => Machine.advance_above hclear ha hs) h hdeep

def countdown : Program :=
  ⟨#[[⟨.label, "top", ⟨0, 0⟩⟩],
    [⟨.word, "push", ⟨1, 0⟩⟩, ⟨.number, "1", ⟨1, 5⟩⟩],
    [⟨.word, "sub", ⟨2, 0⟩⟩],
    [⟨.word, "dup", ⟨3, 0⟩⟩],
    [⟨.word, "push", ⟨4, 0⟩⟩, ⟨.number, "0", ⟨4, 5⟩⟩],
    [⟨.word, "jgt", ⟨5, 0⟩⟩, ⟨.word, "top", ⟨5, 4⟩⟩]], [("top", 0)]⟩

theorem stack_locality_of_countdown :
    Machine.run countdown 13 ({ stack := .ofList [.int 2], output := {} } : Machine PrintedValues) =
        (.finished,
          { stack := .ofList [.int 0], pc := 6, afterContent := true, steps := 10, output := {} }) ∧
      Machine.run countdown 13
          ({ stack := .ofList [.text "kept", .int 2], output := {} } : Machine PrintedValues) =
        (.finished,
          { stack := .ofList [.text "kept", .int 0], pc := 6, afterContent := true, steps := 10,
            output := {} }) := by
  have hrun : Machine.run countdown 13
      ({ stack := .ofList [.int 2], output := {} } : Machine PrintedValues) =
      (.finished,
        { stack := .ofList [.int 0], pc := 6, afterContent := true, steps := 10, output := {} }) :=
    rfl
  exact ⟨hrun, stack_locality [.text "kept"] (by decide) hrun (by simp)⟩

end Stackline
