import Stackline.Proofs.Outcomes
import Stackline.Proofs.Steps

/-! What is printed, apart from where it goes. All that a run has to do with its output is to hand
values to it; so a run that collects them tells what the same run does with any other output, as far
as that output takes them. -/
namespace Stackline

/-- Hands values over, one after the other, up to the first that is refused. -/
def Output.feed {τ : Type} [Output τ] (output : τ) : List Value → Except String Unit × τ
  | [] => (.ok (), output)
  | v :: vs =>
    match Output.accept output v with
    | (.ok (), output) => Output.feed output vs
    | (.error reason, output) => (.error reason, output)

theorem Output.feed_cons_ok {τ : Type} [Output τ] {output left : τ} {v : Value} {vs : List Value} :
    Output.feed output (v :: vs) = (.ok (), left) ↔
      ∃ next, Output.accept output v = (.ok (), next) ∧ Output.feed next vs = (.ok (), left) := by
  simp only [feed]
  cases Output.accept output v with
  | mk result next => cases result <;> simp

def Machine.into {σ τ : Type} (m : Machine σ) (output : τ) : Machine τ :=
  ⟨m.stack, m.title, m.pc, m.afterContent, m.steps, output⟩

def Machine.afterPrint {σ : Type} (m : Machine σ) (output : σ) : Machine σ :=
  { m with stack := ⟨m.stack.items.tail⟩, afterContent := true, steps := m.steps + 1, output }

/-- The line that comes next starts with `head` and prints `v`. -/
structure Machine.Printing {σ : Type} (p : Program) (m : Machine σ) (head : Token) (v : Value) :
    Prop where
  line : ∃ args, p.lines[m.pc]? = some (head :: args) ∧
    Instruction.print.shape.check head args = .ok ()
  word : head.kind = .word ∧ head.literal = Instruction.print.mnemonic
  top : m.stack.items.head? = some v

theorem Machine.Printing.into {σ τ : Type} {p : Program} {m : Machine σ} {head : Token} {v : Value}
    (h : m.Printing p head v) (other : τ) : (m.into other).Printing p head v :=
  ⟨h.line, h.word, h.top⟩

theorem Machine.Printing.pop {σ : Type} {p : Program} {m : Machine σ} {head : Token} {v : Value}
    (h : m.Printing p head v) : m.stack.pop head.position = .ok (v, ⟨m.stack.items.tail⟩) := by
  obtain ⟨items, hitems⟩ := List.head?_eq_some_iff.1 h.top
  rw [Stack.pop, hitems]
  rfl

variable {σ τ : Type} [Output σ] [Output τ]

theorem Instruction.Effect.into {i : Instruction} {labels : Labels} {head : Token}
    {args : List Token} {stack after : Stack} {output left : σ} {result : Except Error Flow}
    (h : i.Effect labels head args stack output result after left)
    (hsilent : i = print → ∀ v below, stack.pop head.position ≠ .ok (v, below)) (other : τ) :
    left = output ∧ i.Effect labels head args stack other result after other := by
  cases h with
  | pushed hargs hv => exact ⟨rfl, .pushed hargs hv⟩
  | unreadable hargs he => exact ⟨rfl, .unreadable hargs he⟩
  | printed hpop hout => exact absurd hpop (hsilent rfl _ _)
  | refused hpop hout => exact absurd hpop (hsilent rfl _ _)
  | cleared => exact ⟨rfl, .cleared⟩
  | doubled hpop => exact ⟨rfl, .doubled hpop⟩
  | computed hpop hv => exact ⟨rfl, .computed hpop hv⟩
  | undefined hpop hv => exact ⟨rfl, .undefined hpop hv⟩
  | lost hargs hpop he => exact ⟨rfl, .lost hargs hpop he⟩
  | incomparable hargs hpop ht hc => exact ⟨rfl, .incomparable hargs hpop ht hc⟩
  | jumped hargs hpop ht hc => exact ⟨rfl, .jumped hargs hpop ht hc⟩
  | passed hargs hpop ht hc => exact ⟨rfl, .passed hargs hpop ht hc⟩
  | noValue hi he => exact ⟨rfl, .noValue hi he⟩
  | noPair hi he => exact ⟨rfl, .noPair hi he⟩

namespace Machine

variable {p : Program} {head : Token} {v : Value}

theorem StepEffect.into {m m' : Machine σ} {line : Line} {result : Except Error Flow}
    (h : m.StepEffect p.labels line result m') (hline : p.lines[m.pc]? = some line)
    (hsilent : ∀ head v, ¬m.Printing p head v) (other : τ) :
    m'.output = m.output ∧ (m.into other).StepEffect p.labels line result (m'.into other) := by
  cases h with
  | blank => exact ⟨rfl, .blank⟩
  | declaration hk hw => exact ⟨rfl, .declaration hk hw⟩
  | label hk => exact ⟨rfl, .label hk⟩
  | titled hk hearly hd hs => exact ⟨rfl, .titled hk hearly hd hs⟩
  | late hk hlate => exact ⟨rfl, .late hk hlate⟩
  | unknownDirective hk hearly hd => exact ⟨rfl, .unknownDirective hk hearly hd⟩
  | unfitDirective hk hearly hd hs => exact ⟨rfl, .unfitDirective hk hearly hd hs⟩
  | unknownInstruction hk hw hi => exact ⟨rfl, .unknownInstruction hk hw hi⟩
  | unfitInstruction hk hw hi hs => exact ⟨rfl, .unfitInstruction hk hw hi hs⟩
  | stray hk => exact ⟨rfl, .stray hk⟩
  | @executed head args i result stack output hk hw hi hs he =>
    -- Only a `print` that finds a value looks at the output.
    have hquiet : i = .print → ∀ v below, m.stack.pop head.position ≠ .ok (v, below) := by
      intro hprint v below hpop
      subst hprint
      refine hsilent head v ⟨⟨args, hline, hs⟩, ⟨hk, ?_⟩, ?_⟩
      · exact (Instruction.mnemonic_of_ofMnemonic? hi).symm
      · rw [Stack.pop_eq_ok.1 hpop]
        rfl
    obtain ⟨hout, heffect⟩ := he.into hquiet other
    exact ⟨hout, .executed hk hw hi hs heffect⟩

theorem advance_silent {m m' : Machine σ} {status : Status} (h : advance p m = (status, m'))
    (hsilent : ∀ head v, ¬m.Printing p head v) (other : τ) :
    m'.output = m.output ∧ advance p (m.into other) = (status, m'.into other) := by
  cases status with
  | running =>
    obtain ⟨line, flow, after, hline, hs, rfl⟩ := advance_eq_running.1 h
    obtain ⟨hout, heffect⟩ := (step_effect hs).into hline hsilent other
    have hfollow : (after.into other).follow flow = (after.follow flow).into other := by
      cases flow <;> rfl
    refine ⟨?_, advance_eq_running.2 ⟨line, flow, _, hline, heffect.step_eq, hfollow⟩⟩
    rw [← hout]
    cases flow <;> rfl
  | finished =>
    obtain ⟨hnone, rfl⟩ := advance_eq_finished.1 h
    exact ⟨rfl, advance_eq_finished.2 ⟨hnone, rfl⟩⟩
  | failed e =>
    obtain ⟨line, hline, hs⟩ := advance_eq_failed.1 h
    obtain ⟨hout, heffect⟩ := (step_effect hs).into hline hsilent other
    exact ⟨hout, advance_eq_failed.2 ⟨line, hline, heffect.step_eq⟩⟩

section

variable {m : Machine σ} {output : σ}

theorem Printing.exists_step (h : m.Printing p head v) {result : Except Error Flow}
    (heffect : ∀ args, Instruction.print.Effect p.labels head args m.stack m.output result
      ⟨m.stack.items.tail⟩ output) :
    ∃ line, p.lines[m.pc]? = some line ∧ m.step p.labels line = (result, m.afterPrint output) := by
  obtain ⟨args, hline, hs⟩ := h.line
  exact ⟨head :: args, hline, step_of_invoked ⟨h.word, hs⟩ (heffect args)⟩

theorem Printing.advance_accepted (h : m.Printing p head v)
    (hout : Output.accept m.output v = (.ok (), output)) :
    advance p m = (.running, (m.afterPrint output).follow .next) := by
  obtain ⟨line, hline, hs⟩ := h.exists_step fun _ => .printed h.pop hout
  exact advance_eq_running.2 ⟨line, .next, _, hline, hs, rfl⟩

theorem Printing.advance_refused (h : m.Printing p head v) {reason : String}
    (hout : Output.accept m.output v = (.error reason, output)) :
    advance p m = (.failed ⟨head.position, .output reason⟩, m.afterPrint output) := by
  obtain ⟨line, hline, hs⟩ := h.exists_step fun _ => .refused h.pop hout
  exact advance_eq_failed.2 ⟨line, hline, hs⟩

end

section Collected

variable {m m' : Machine PrintedValues} {fuel : Nat} {status : Status}

theorem turn_collected (h : advance p m = (status, m')) :
    ((∀ head v, ¬m.Printing p head v) ∧ m'.output = m.output) ∨
      ∃ head v, m.Printing p head v ∧ status = .running ∧
        m' = (m.afterPrint ⟨m.output.values.push v⟩).follow .next := by
  by_cases hprint : ∃ head v, m.Printing p head v
  · obtain ⟨head, v, hprint⟩ := hprint
    have hturn : advance p m = (.running, (m.afterPrint ⟨m.output.values.push v⟩).follow .next) :=
      hprint.advance_accepted rfl
    rw [h] at hturn
    obtain ⟨hstatus, hm⟩ := Prod.mk.inj hturn
    exact Or.inr ⟨head, v, hprint, hstatus, hm⟩
  · have hsilent : ∀ head v, ¬m.Printing p head v := by simpa using hprint
    exact Or.inl ⟨hsilent, (advance_silent h hsilent m.output).1⟩

theorem printed_of_run (h : run p fuel m = (status, m')) :
    m.output.values.toList <+: m'.output.values.toList := by
  have hturn {status : Status} {m m₁ : Machine PrintedValues} (ha : advance p m = (status, m₁)) :
      m.output.values.toList <+: m₁.output.values.toList := by
    cases turn_collected ha with
    | inl hsilent => exact ⟨[], by rw [hsilent.2, List.append_nil]⟩
    | inr hprint =>
      obtain ⟨head, v, -, -, rfl⟩ := hprint
      exact ⟨[v], by simp [afterPrint, follow]⟩
  induction fuel generalizing m with
  | zero =>
    cases h
    exact List.prefix_rfl
  | succ fuel ih =>
    cases run_succ.1 h with
    | inl hmore =>
      obtain ⟨m₁, ha, hr⟩ := hmore
      exact (hturn ha).trans (ih hr)
    | inr hlast => exact hturn hlast.2

theorem printed_cons {vs : List Value} {m₁ : Machine PrintedValues}
    (hm₁ : m₁ = (m.afterPrint ⟨m.output.values.push v⟩).follow .next)
    (h : run p fuel m₁ = (status, m'))
    (hvs : m'.output.values.toList = m.output.values.toList ++ vs) :
    ∃ rest, vs = v :: rest ∧ m'.output.values.toList = m₁.output.values.toList ++ rest := by
  obtain ⟨rest, hrest⟩ := printed_of_run h
  have hfirst : m₁.output.values.toList = m.output.values.toList ++ [v] := by
    subst hm₁
    simp [afterPrint, follow]
  refine ⟨rest, ?_, hrest.symm⟩
  rw [hvs, hfirst, List.append_assoc] at hrest
  exact (List.append_cancel_left hrest).symm

/-- Another output that takes all the values sees the same run. -/
theorem run_fed {vs : List Value} {output left : τ} (h : run p fuel m = (status, m'))
    (hvs : m'.output.values.toList = m.output.values.toList ++ vs)
    (hfed : Output.feed output vs = (.ok (), left)) :
    run p fuel (m.into output) = (status, m'.into left) := by
  have hnone {m : Machine PrintedValues} {vs : List Value} {output : τ}
      (hvs : m'.output.values.toList = m.output.values.toList ++ vs)
      (hfed : Output.feed output vs = (.ok (), left)) (hsame : m'.output = m.output) :
      output = left := by
    have hnil : vs = [] := by simpa [hsame] using hvs
    subst hnil
    cases hfed
    rfl
  induction fuel generalizing m vs output with
  | zero =>
    cases h
    rw [hnone hvs hfed rfl]
    rfl
  | succ fuel ih =>
    rw [run_succ]
    cases run_succ.1 h with
    | inl hmore =>
      obtain ⟨m₁, ha, hr⟩ := hmore
      cases turn_collected ha with
      | inl hsilent =>
        obtain ⟨hsilent, hsame⟩ := hsilent
        rw [← hsame] at hvs
        exact Or.inl ⟨_, (advance_silent ha hsilent output).2, ih hr hvs hfed⟩
      | inr hprint =>
        obtain ⟨head, v, hprint, -, hm₁⟩ := hprint
        obtain ⟨rest, rfl, hrest⟩ := printed_cons hm₁ hr hvs
        obtain ⟨next, haccept, hfed⟩ := Output.feed_cons_ok.1 hfed
        refine Or.inl ⟨_, (hprint.into output).advance_accepted haccept, ?_⟩
        have hrun := ih hr hrest hfed
        rwa [hm₁] at hrun
    | inr hlast =>
      obtain ⟨hs, ha⟩ := hlast
      cases turn_collected ha with
      | inl hsilent =>
        obtain ⟨hsilent, hsame⟩ := hsilent
        rw [← hnone hvs hfed hsame]
        exact Or.inr ⟨hs, (advance_silent ha hsilent output).2⟩
      | inr hprint =>
        obtain ⟨head, v, -, hrunning, -⟩ := hprint
        exact absurd hrunning hs

theorem exists_printing {front back : List Value} (h : run p fuel m = (status, m'))
    (hvs : m'.output.values.toList = m.output.values.toList ++ (front ++ v :: back)) :
    ∃ turns m₁ head, run p turns m = (.running, m₁) ∧
      m₁.output.values.toList = m.output.values.toList ++ front ∧ m₁.Printing p head v := by
  induction fuel generalizing m front with
  | zero =>
    cases h
    simp at hvs
  | succ fuel ih =>
    cases run_succ.1 h with
    | inl hmore =>
      obtain ⟨m₁, ha, hr⟩ := hmore
      cases turn_collected ha with
      | inl hsilent =>
        obtain ⟨-, hsame⟩ := hsilent
        rw [← hsame] at hvs ⊢
        obtain ⟨turns, m₂, head, hturns, hfront, hprint⟩ := ih hr hvs
        exact ⟨turns + 1, m₂, head, run_succ.2 (Or.inl ⟨m₁, ha, hturns⟩), hfront, hprint⟩
      | inr hprint =>
        obtain ⟨head, w, hprint, -, hm₁⟩ := hprint
        obtain ⟨rest, hcons, hrest⟩ := printed_cons hm₁ hr hvs
        cases front with
        | nil =>
          cases hcons
          exact ⟨0, m, head, rfl, by simp, hprint⟩
        | cons u front =>
          cases hcons
          obtain ⟨turns, m₂, head', hturns, hfront, hprint'⟩ := ih hr hrest
          refine ⟨turns + 1, m₂, head', run_succ.2 (Or.inl ⟨m₁, ha, hturns⟩), ?_, hprint'⟩
          rw [hfront, hm₁]
          simp [afterPrint, follow]
    | inr hlast =>
      obtain ⟨hs, ha⟩ := hlast
      cases turn_collected ha with
      | inl hsilent =>
        rw [hsilent.2] at hvs
        simp at hvs
      | inr hprint =>
        obtain ⟨head, v, -, hrunning, -⟩ := hprint
        exact absurd hrunning hs

/-- Another output that refuses a value sees the same run up to the line that prints it. -/
theorem ends_refused {front back : List Value} {output next left : τ} {reason : String}
    (h : run p fuel m = (status, m'))
    (hvs : m'.output.values.toList = m.output.values.toList ++ (front ++ v :: back))
    (hfed : Output.feed output front = (.ok (), next))
    (hrefused : Output.accept next v = (.error reason, left)) :
    ∃ m₁ head, Reaches p m m₁ ∧ m₁.output.values.toList = m.output.values.toList ++ front ∧
      m₁.Printing p head v ∧
      Ends p (m.into output) (.failed ⟨head.position, .output reason⟩)
        ((m₁.into next).afterPrint left) := by
  obtain ⟨turns, m₁, head, hturns, hfront, hprint⟩ := exists_printing h hvs
  refine ⟨m₁, head, ⟨turns, hturns⟩, hfront, hprint, ?_⟩
  have hreach : Reaches p (m.into output) (m₁.into next) := ⟨turns, run_fed hturns hfront hfed⟩
  rw [hreach.ends_iff]
  exact .of_advance ((hprint.into next).advance_refused hrefused) (by simp)

end Collected
end Machine

section Texts

variable {text : String} {outcome : Outcome} {vs front back : List Value} {output next left : τ}

theorem TextEnds.fed (h : TextEnds text ({} : PrintedValues) outcome ⟨vs.toArray⟩)
    (hfed : Output.feed output vs = (.ok (), left)) : TextEnds text output outcome left := by
  cases ho : Program.ofText text with
  | error e =>
    obtain ⟨rfl, hvs⟩ := (textEnds_of_error ho).1 h
    have hnil : vs = [] := by simpa using hvs
    subst hnil
    cases hfed
    exact (textEnds_of_error ho).2 ⟨rfl, rfl⟩
  | ok p =>
    obtain ⟨status, m, ⟨hs, fuel, hrun⟩, rfl, hvs⟩ := (textEnds_of_ok ho).1 h
    have hend := Machine.run_fed hrun (by simp [← hvs]) hfed
    refine (textEnds_of_ok ho).2 ⟨status, m.into left, ⟨hs, fuel, hend⟩, ?_, rfl⟩
    cases status <;> rfl

theorem TextEnds.refused {v : Value} {reason : String}
    (h : TextEnds text ({} : PrintedValues) outcome ⟨(front ++ v :: back).toArray⟩)
    (hfed : Output.feed output front = (.ok (), next))
    (hrefused : Output.accept next v = (.error reason, left)) :
    ∃ p m head, Program.ofText text = .ok p ∧
      Machine.Reaches p { output := ({} : PrintedValues) } m ∧ m.output.values.toList = front ∧
      m.Printing p head v ∧
      TextEnds text output (.failed ⟨head.position, .output reason⟩) left := by
  cases ho : Program.ofText text with
  | error e =>
    obtain ⟨-, hvs⟩ := (textEnds_of_error ho).1 h
    simp at hvs
  | ok p =>
    obtain ⟨status, m', ⟨hs, fuel, hrun⟩, rfl, hvs⟩ := (textEnds_of_ok ho).1 h
    have hall : m'.output.values.toList = [] ++ (front ++ v :: back) := by simp [← hvs]
    obtain ⟨m, head, hreach, hfront, hprint, hend⟩ :=
      Machine.ends_refused hrun hall hfed hrefused
    exact ⟨p, m, head, rfl, hreach, hfront, hprint, (textEnds_of_ok ho).2 ⟨_, _, hend, rfl, rfl⟩⟩

end Texts
end Stackline
