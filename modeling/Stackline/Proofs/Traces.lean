import Stackline.Interpreter
import Stackline.Proofs.ControlFlow
import Stackline.Proofs.FailedSteps
import Stackline.Proofs.Outcomes

/-! The story of a run against the run itself. Every event but the first and the last tells of one
execution, in the order in which they took place; only an instruction that fails at work is counted
and not told of. From one execution to the next the machine walks over lines that do nothing. -/
namespace Stackline

def Line.IsIdle (line : Line) : Prop :=
  line = [] ∨ line.isLabel = true ∨ line.isDeclaration = true

/-- From line `i` on, and up to line `j`, which is left out, all lines are idle. -/
def Program.IdleBetween (p : Program) (i j : Nat) : Prop :=
  ∀ n, i ≤ n → n < j → ∃ line, p.lines[n]? = some line ∧ line.IsIdle

theorem Program.IdleBetween.cons {p : Program} {i j : Nat} {line : Line}
    (hline : p.lines[i]? = some line) (hidle : line.IsIdle) (h : p.IdleBetween (i + 1) j) :
    p.IdleBetween i j := by
  intro n hle hlt
  by_cases hfirst : n = i
  · subst hfirst
    exact ⟨line, hline, hidle⟩
  · exact h n (by omega) hlt

structure Execution (σ : Type) where
  before : Machine σ
  head : Token
  args : List Token
  instruction : Instruction
  flow : Flow
  after : Machine σ

namespace Execution

variable {σ : Type}

def event (x : Execution σ) : Event :=
  .executed (x.before.pc + 1) x.instruction x.after.stack

/-- What is written down of it: the line from one on, the name that stands at its head, and the
stack right after it. -/
def record (x : Execution σ) : Record :=
  ⟨"executed",
    [("line", .number (x.before.pc + 1)), ("instruction", .text x.head.literal),
      ("stack", .text x.after.stack.text)]⟩

/-- It is the program's line at the pointer that was executed, and this is what came of it. -/
structure In [Output σ] (p : Program) (x : Execution σ) : Prop where
  line : p.lines[x.before.pc]? = some (x.head :: x.args)
  invoked : x.instruction.Invoked x.head x.args
  step : x.before.step p.labels (x.head :: x.args) = (.ok x.flow, x.after)

theorem record_event [Output σ] {p : Program} {x : Execution σ} (h : x.In p) :
    x.event.record = x.record := by
  rw [record, h.invoked.word.2]
  rfl

/-- All lines are idle from where one execution goes on to where the next takes place: further down,
or behind the label that the first one jumps to. -/
def LeadsTo (p : Program) (x y : Execution σ) : Prop :=
  match x.flow with
  | .next => x.before.pc < y.before.pc ∧ p.IdleBetween (x.before.pc + 1) y.before.pc
  | .jump target =>
    (∃ c, x.instruction = .jump c) ∧
      (∃ arg rest label, x.args = arg :: rest ∧ p.lines[target]? = some [label] ∧
        label.kind = .label ∧ label.literal = arg.literal) ∧
      target < y.before.pc ∧ p.IdleBetween target y.before.pc

end Execution

namespace Machine

variable {σ : Type} [Output σ] {p : Program} {m m' : Machine σ}

section Events

theorem traceFrom_eq (p : Program) (fuel : Nat) (told : List Event) (m : Machine σ) :
    traceFrom p fuel told m = traceFrom p fuel [] m ++ told := by
  induction fuel generalizing told m with
  | zero => rfl
  | succ fuel ih =>
    cases hline : p.lines[m.pc]? with
    | none => simp [traceFrom, hline]
    | some line =>
      cases hs : m.step p.labels line with
      | mk result after =>
        cases result with
        | error e => simp [traceFrom, hline, hs]
        | ok flow =>
          simp only [traceFrom, hline, hs]
          rw [ih (_ ++ told), ih (_ ++ []), List.append_nil, List.append_assoc]

theorem trace_none {fuel : Nat} (h : p.lines[m.pc]? = none) :
    trace p (fuel + 1) m = [.finished m.steps m.stack] := by
  simp only [trace, traceFrom, h, List.reverse_singleton]

theorem trace_error {fuel : Nat} {line : Line} {e : Error} (hline : p.lines[m.pc]? = some line)
    (hs : m.step p.labels line = (.error e, m')) : trace p (fuel + 1) m = [] := by
  simp only [trace, traceFrom, hline, hs, List.reverse_nil]

theorem trace_ok {fuel : Nat} {line : Line} {flow : Flow} (hline : p.lines[m.pc]? = some line)
    (hs : m.step p.labels line = (.ok flow, m')) :
    trace p (fuel + 1) m =
      (eventOf? m.pc line m'.stack).toList ++ trace p fuel (m'.follow flow) := by
  have hsingle (event? : Option Event) : event?.toList.reverse = event?.toList := by
    cases event? <;> rfl
  simp only [trace, traceFrom, hline, hs]
  rw [traceFrom_eq, List.append_nil, List.reverse_append, hsingle]

theorem eventOf?_of_invoked {i : Instruction} {head : Token} {args : List Token}
    (h : i.Invoked head args) (pc : Nat) (stack : Stack) :
    eventOf? pc (head :: args) stack = some (.executed (pc + 1) i stack) := by
  have hw := i.mnemonic_ne_declarationWord
  simp [eventOf?, Statement.ofLine, h.word.1, h.word.2, hw, Instruction.ofMnemonic?_mnemonic]

end Events

/-- A step that does not fail executes an instruction; or there is nothing to tell, and once the
program has begun the line is idle. -/
theorem step_ok_cases {labels : Labels} {line : Line} {flow : Flow}
    (h : m.step labels line = (.ok flow, m')) :
    (m'.steps = m.steps + 1 ∧ m'.afterContent = true ∧
      ∃ head args, ∃ i : Instruction, line = head :: args ∧ i.Invoked head args) ∨
    (m'.steps = m.steps ∧ flow = .next ∧ (∀ pc stack, eventOf? pc line stack = none) ∧
      (m.afterContent = true → m'.afterContent = true ∧ line.IsIdle)) := by
  cases step_effect h with
  | blank => exact Or.inr ⟨rfl, rfl, fun _ _ => rfl, fun hm => ⟨hm, Or.inl rfl⟩⟩
  | declaration hk hw =>
    refine Or.inr ⟨rfl, rfl, fun _ _ => by simp [eventOf?, Statement.ofLine, hk, hw], ?_⟩
    exact fun hm => ⟨hm, Or.inr (Or.inr (Line.isDeclaration_iff.2 ⟨_, _, rfl, hk, hw⟩))⟩
  | label hk =>
    refine Or.inr ⟨rfl, rfl, fun _ _ => by simp [eventOf?, Statement.ofLine, hk], ?_⟩
    exact fun _ => ⟨rfl, Or.inr (Or.inl (Line.isLabel_iff.2 ⟨_, _, rfl, hk⟩))⟩
  | titled hk hearly hd hs =>
    refine Or.inr ⟨rfl, rfl, fun _ _ => by simp [eventOf?, Statement.ofLine, hk], ?_⟩
    intro hm
    rw [hearly] at hm
    cases hm
  | executed hk hw hi hs he =>
    have hname := (Instruction.mnemonic_of_ofMnemonic? hi).symm
    exact Or.inl ⟨rfl, rfl, _, _, _, rfl, ⟨hk, hname⟩, hs⟩

/-- A run taken apart into its executions, the silent turns between them, and its last turn. -/
inductive Story (p : Program) : Machine σ → List (Execution σ) → Status → Machine σ → Prop
  | goingOn (m : Machine σ) : Story p m [] .running m
  | ended {m m' : Machine σ} {status : Status} (hstop : status ≠ .running)
      (last : advance p m = (status, m')) : Story p m [] status m'
  /-- A title is silent as well, but only before the program has begun. -/
  | silent {m after m' : Machine σ} {line : Line} {xs : List (Execution σ)} {status : Status}
      (hline : p.lines[m.pc]? = some line) (hs : m.step p.labels line = (.ok .next, after))
      (uncounted : after.steps = m.steps)
      (idle : m.afterContent = true → after.afterContent = true ∧ line.IsIdle)
      (rest : Story p (after.follow .next) xs status m') : Story p m xs status m'
  | executed {x : Execution σ} {m' : Machine σ} {xs : List (Execution σ)} {status : Status}
      (hx : x.In p) (counted : x.after.steps = x.before.steps + 1)
      (begun : x.after.afterContent = true) (rest : Story p (x.after.follow x.flow) xs status m') :
      Story p x.before (x :: xs) status m'

theorem exists_story {fuel : Nat} {status : Status} (h : run p fuel m = (status, m')) :
    ∃ xs, Story p m xs status m' ∧
      trace p fuel m = xs.map Execution.event ++
        if status = .finished then [.finished m'.steps m'.stack] else [] := by
  induction fuel generalizing m with
  | zero =>
    cases h
    exact ⟨[], .goingOn _, rfl⟩
  | succ fuel ih =>
    cases run_succ.1 h with
    | inl hmore =>
      obtain ⟨m₁, ha, hr⟩ := hmore
      obtain ⟨line, flow, after, hline, hs, rfl⟩ := advance_eq_running.1 ha
      obtain ⟨xs, hstory, htrace⟩ := ih hr
      rw [trace_ok hline hs, htrace]
      -- The first turn adds an execution in front, or tells of nothing.
      cases step_ok_cases hs with
      | inl hwork =>
        obtain ⟨hsteps, hbegun, head, args, i, rfl, hi⟩ := hwork
        rw [eventOf?_of_invoked hi]
        let x : Execution σ := ⟨m, head, args, i, flow, after⟩
        have hx : x.In p := ⟨hline, hi, hs⟩
        exact ⟨x :: xs, .executed hx hsteps hbegun hstory, rfl⟩
      | inr hquiet =>
        obtain ⟨hsteps, rfl, hevent, hidle⟩ := hquiet
        rw [hevent]
        exact ⟨xs, .silent hline hs hsteps hidle hstory, rfl⟩
    | inr hlast =>
      obtain ⟨hstop, ha⟩ := hlast
      refine ⟨[], .ended hstop ha, ?_⟩
      cases status with
      | running => exact absurd rfl hstop
      | finished =>
        obtain ⟨hnone, rfl⟩ := advance_eq_finished.1 ha
        exact trace_none hnone
      | failed e =>
        obtain ⟨line, hline, hs⟩ := advance_eq_failed.1 ha
        exact trace_error hline hs

namespace Story

variable {xs : List (Execution σ)} {status : Status}

theorem exists_last_turn (h : Story p m xs status m') (hstop : status ≠ .running) :
    ∃ m₁, m₁.steps = m.steps + xs.length ∧ advance p m₁ = (status, m') := by
  induction h with
  | goingOn m => exact absurd rfl hstop
  | @ended m m' status hstop last => exact ⟨m, rfl, last⟩
  | silent hline hs uncounted idle rest ih =>
    rw [steps_follow, uncounted] at ih
    exact ih hstop
  | executed hx counted begun rest ih =>
    obtain ⟨m₁, hsteps, hlast⟩ := ih hstop
    rw [steps_follow, counted] at hsteps
    exact ⟨m₁, by rw [hsteps, List.length_cons]; omega, hlast⟩

theorem steps_of_finished (h : Story p m xs .finished m') : m'.steps = m.steps + xs.length := by
  obtain ⟨m₁, hsteps, hlast⟩ := h.exists_last_turn (by simp)
  obtain ⟨-, rfl⟩ := advance_eq_finished.1 hlast
  exact hsteps

theorem steps_of_failed {e : Error} (h : Story p m xs (.failed e) m') :
    ∃ line, p.lines[m'.pc]? = some line ∧
      (¬line.IsExecutable → m'.steps = m.steps + xs.length) ∧
      (line.IsExecutable → m'.steps = m.steps + xs.length + 1) := by
  obtain ⟨m₁, hsteps, hlast⟩ := h.exists_last_turn (by simp)
  obtain ⟨line, hline, hs⟩ := advance_eq_failed.1 hlast
  refine ⟨line, by rwa [pc_of_step hs], ?_⟩
  rw [← hsteps]
  cases step_error_cases hs with
  | inl hwork =>
    obtain ⟨hexecutable, -, stack, output, rfl, -⟩ := hwork
    exact ⟨fun hnot => absurd hexecutable hnot, fun _ => rfl⟩
  | inr hbefore =>
    obtain ⟨hnot, -, hm⟩ := hbefore
    exact ⟨fun _ => by rw [hm], fun hexecutable => absurd hexecutable hnot⟩

theorem executed_at {x : Execution σ} (h : Story p m xs status m') {k : Nat}
    (hx : xs[k]? = some x) :
    x.In p ∧ x.before.steps = m.steps + k ∧ Reaches p m x.before := by
  induction h generalizing k with
  | goingOn m => cases hx
  | ended hstop last => cases hx
  | silent hline hs uncounted idle rest ih =>
    obtain ⟨hin, hcount, hreach⟩ := ih hx
    rw [steps_follow, uncounted] at hcount
    exact ⟨hin, hcount, hreach.head (advance_eq_running.2 ⟨_, _, _, hline, hs, rfl⟩)⟩
  | @executed y m' xs status hy counted begun rest ih =>
    cases k with
    | zero =>
      cases hx
      exact ⟨hy, rfl, .refl p _⟩
    | succ k =>
      obtain ⟨hin, hcount, hreach⟩ := ih hx
      rw [steps_follow, counted] at hcount
      exact ⟨hin, by omega,
        hreach.head (advance_eq_running.2 ⟨_, _, _, hy.line, hy.step, rfl⟩)⟩

theorem map_record (h : Story p m xs status m') :
    (xs.map Execution.event).map Event.record = xs.map Execution.record := by
  rw [List.map_map]
  refine List.map_congr_left fun x hx => ?_
  obtain ⟨k, hk⟩ := List.mem_iff_getElem?.1 hx
  exact Execution.record_event (h.executed_at hk).1

/-- Once the program has begun, the next execution is down an idle stretch from the pointer. -/
theorem idle_to_head {y : Execution σ} (h : Story p m xs status m') (hm : m.afterContent = true)
    (hy : xs.head? = some y) :
    m.pc ≤ y.before.pc ∧ p.IdleBetween m.pc y.before.pc := by
  induction h with
  | goingOn m => cases hy
  | ended hstop last => cases hy
  | silent hline hs uncounted idle rest ih =>
    obtain ⟨hbegun, hidle⟩ := idle hm
    obtain ⟨hle, hbetween⟩ := ih (by rwa [afterContent_follow]) hy
    simp only [follow, pc_of_step hs] at hle hbetween
    exact ⟨by omega, hbetween.cons hline hidle⟩
  | executed hx counted begun rest ih =>
    cases hy
    refine ⟨Nat.le_refl _, ?_⟩
    intro n hle hlt
    omega

end Story

theorem leadsTo_of_story {lines : List Line} (hp : Program.ofLines lines = .ok p) {x y : Execution σ}
    {xs : List (Execution σ)} {status : Status} (hx : x.In p) (hbegun : x.after.afterContent = true)
    (hrest : Story p (x.after.follow x.flow) xs status m') (hy : xs.head? = some y) (hyin : y.In p) :
    x.LeadsTo p y := by
  obtain ⟨hle, hidle⟩ := hrest.idle_to_head (by rwa [afterContent_follow]) hy
  obtain ⟨before, head, args, i, flow, after⟩ := x
  cases flow with
  | next =>
    have hpc : after.pc = before.pc := pc_of_step hx.step
    simp only [follow, hpc] at hle hidle
    exact ⟨hle, hidle⟩
  | jump target =>
    obtain ⟨c, head', arg, rest, hcut, hi, ht⟩ := step_jump hx.step
    cases hcut
    obtain ⟨-, ⟨label, hk, hname, -, hlabel⟩, -⟩ := Program.label_at hp ht
    have hjump : i = .jump c := by
      have hnamed := hx.invoked.word.2
      rw [hnamed, Instruction.ofMnemonic?_mnemonic] at hi
      exact Option.some.inj hi
    -- The label itself is not executed, so the next execution is further down.
    have hne : target ≠ y.before.pc := by
      intro heq
      have hline := hyin.line
      rw [← heq, hlabel, Option.some.injEq, List.cons.injEq] at hline
      rw [hline.1, hyin.invoked.word.1] at hk
      cases hk
    exact ⟨⟨c, hjump⟩, ⟨arg, rest, label, rfl, hlabel, hk, hname⟩,
      Nat.lt_of_le_of_ne hle hne, hidle⟩

theorem Story.isChain {lines : List Line} (hp : Program.ofLines lines = .ok p)
    {xs : List (Execution σ)} {status : Status} (h : Story p m xs status m') :
    xs.IsChain (Execution.LeadsTo p) := by
  induction h with
  | goingOn m => exact .nil
  | ended hstop last => exact .nil
  | silent hline hs uncounted idle rest ih => exact ih
  | @executed x m' xs status hx counted begun rest ih =>
    cases xs with
    | nil => exact .singleton x
    | cons y ys =>
      have hy : y.In p := (rest.executed_at (k := 0) rfl).1
      exact .cons_cons (leadsTo_of_story hp hx begun rest rfl hy) ih

end Machine

/-- What is told of a run is the scope, then its executions in order, and then, if it ended well and
only then, its end with the steps and the stack that are reported; and it is written down with these
very numbers, names and stacks. There are as many executions as steps, but for an instruction that
fails at work, which is counted and not told of. Execution `k` is that of the line at which the loop
comes by with `k` steps made; and from one to the next there is nothing to execute, be it straight
on or from the label of a jump. -/
theorem trace_agrees_with_run {σ : Type} [Output σ] {lines : List Line} {p : Program}
    (hp : Program.ofLines lines = .ok p) (output : σ) {fuel : Nat} {status : Status}
    {m : Machine σ} (hrun : Machine.run p fuel { output } = (status, m)) :
    ∃ (scope : Scope) (xs : List (Execution σ)), (resolve lines).1 = .ok scope ∧
      traceLines fuel lines output =
        scope.event :: (xs.map Execution.event ++
          if status = .finished then [.finished m.steps m.stack] else []) ∧
      (traceLines fuel lines output).map Event.record =
        ⟨"resolved program",
          [("labels", .number scope.labels.length), ("aliases", .number scope.aliases.length)]⟩ ::
          (xs.map Execution.record ++
            if status = .finished then
              [⟨"program finished", [("steps", .number m.steps), ("stack", .text m.stack.text)]⟩]
            else []) ∧
      (status = .finished → xs.length = m.steps ∧
        runLines fuel lines output = (.finished ⟨m.title, m.stack, m.steps⟩, m.output)) ∧
      (∀ e, status = .failed e → runLines fuel lines output = (.failed e, m.output) ∧
        ∃ line, p.lines[m.pc]? = some line ∧ (¬line.IsExecutable → xs.length = m.steps) ∧
          (line.IsExecutable → xs.length + 1 = m.steps)) ∧
      (∀ (k : Nat) (x : Execution σ), xs[k]? = some x →
        x.In p ∧ x.before.steps = k ∧ Machine.Reaches p { output } x.before) ∧
      xs.IsChain (Execution.LeadsTo p) := by
  obtain ⟨scope, left, hr, hleft⟩ := Program.exists_resolve hp
  obtain ⟨xs, hstory, htrace⟩ := Machine.exists_story hrun
  have htold : traceLines fuel lines output =
      scope.event :: (xs.map Execution.event ++
        if status = .finished then [.finished m.steps m.stack] else []) := by
    rw [traceLines, hr]
    simp only [← hleft, htrace]
  refine ⟨scope, xs, by rw [hr], htold, ?_, ?_, ?_, ?_, hstory.isChain hp⟩
  · rw [htold, List.map_cons, List.map_append, hstory.map_record]
    split <;> rfl
  · rintro rfl
    have hsteps := hstory.steps_of_finished
    rw [Nat.zero_add] at hsteps
    refine ⟨hsteps.symm, ?_⟩
    rw [runLines_of_ofLines hp, Program.run_eq, hrun]
    rfl
  · rintro e rfl
    obtain ⟨line, hline, hbefore, hwork⟩ := hstory.steps_of_failed
    simp only [Nat.zero_add] at hbefore hwork
    refine ⟨?_, line, hline, fun h => (hbefore h).symm, fun h => (hwork h).symm⟩
    rw [runLines_of_ofLines hp, Program.run_eq, hrun]
    rfl
  · intro k x hx
    have hat := hstory.executed_at hx
    rwa [Nat.zero_add] at hat

def emptyHanded : List Line :=
  [[⟨.word, "push", ⟨0, 0⟩⟩, ⟨.number, "1", ⟨0, 5⟩⟩],
    [⟨.word, "alias", ⟨1, 0⟩⟩, ⟨.word, "a", ⟨1, 6⟩⟩, ⟨.number, "2", ⟨1, 8⟩⟩],
    [⟨.word, "push", ⟨2, 0⟩⟩, ⟨.reference, "a", ⟨2, 5⟩⟩],
    [⟨.word, "jlt", ⟨3, 0⟩⟩, ⟨.word, "end", ⟨3, 4⟩⟩],
    [⟨.word, "print", ⟨4, 0⟩⟩],
    [⟨.label, "end", ⟨5, 0⟩⟩],
    [],
    [⟨.word, "print", ⟨7, 0⟩⟩]]

theorem trace_of_emptyHanded :
    ∃ p, Program.ofLines emptyHanded = .ok p ∧
      ∃ xs : List (Execution PrintedValues),
        traceLines 9 emptyHanded ({} : PrintedValues) =
          .resolved 1 1 :: xs.map Execution.event ∧
        xs.map Execution.event =
          [.executed 1 .push (.ofList [.int 1]), .executed 3 .push (.ofList [.int 1, .int 2]),
            .executed 4 (.jump .less) .empty] ∧
        xs.map Execution.record =
          [⟨"executed", [("line", .number 1), ("instruction", .text "push"), ("stack", .text "[ 1 ]")]⟩,
            ⟨"executed",
              [("line", .number 3), ("instruction", .text "push"), ("stack", .text "[ 1, 2 ]")]⟩,
            ⟨"executed", [("line", .number 4), ("instruction", .text "jlt"), ("stack", .text "[]")]⟩] ∧
        xs.IsChain (Execution.LeadsTo p) ∧ xs.length + 1 = 4 := by
  let p : Program :=
    ⟨(emptyHanded.set 2 [⟨.word, "push", ⟨2, 0⟩⟩, ⟨.number, "2", ⟨2, 5⟩⟩]).toArray, [("end", 5)]⟩
  have hp : Program.ofLines emptyHanded = .ok p := rfl
  have hrun : Machine.run p 9 { output := ({} : PrintedValues) } =
      (.failed ⟨⟨7, 0⟩, .stackUnderflow⟩,
        { pc := 7, afterContent := true, steps := 4, output := {} }) := rfl
  obtain ⟨scope, xs, hscope, htrace, hrecords, -, hfailed, -, hchain⟩ :=
    trace_agrees_with_run hp _ hrun
  obtain ⟨-, line, hline, -, hcount⟩ := hfailed _ rfl
  cases hline
  cases hscope
  simp only [reduceCtorEq, if_false, List.append_nil] at htrace hrecords
  refine ⟨p, hp, xs, htrace, ?_, ?_, hchain, hcount ?_⟩
  · exact (List.cons.inj htrace).2.symm
  · exact (List.cons.inj hrecords).2.symm
  · exact Line.isExecutable_cons.2 ⟨rfl, by decide, _, rfl, rfl⟩

end Stackline
