import Stackline.Proofs.Resolution
import Stackline.Proofs.Runs
import Stackline.Proofs.Steps

/-! Where a run can go. The line pointer stays within the lines or right behind them, a jump lands on
the one label that its argument names, and a run that ends well has come to the end. -/
namespace Stackline

variable {σ : Type} [Output σ] {lines : List Line} {p : Program}

theorem Program.exists_resolve (h : Program.ofLines lines = .ok p) :
    ∃ scope left, resolve lines = (.ok scope, left) ∧ p = ⟨left.toArray, scope.labels⟩ := by
  simp only [Program.ofLines] at h
  split at h
  · cases h
  · rename_i scope left hr
    cases h
    exact ⟨scope, left, hr, rfl⟩

theorem Program.size_lines (h : Program.ofLines lines = .ok p) : p.lines.size = lines.length := by
  obtain ⟨scope, left, hr, rfl⟩ := Program.exists_resolve h
  simpa using length_resolve hr

/-- What the table has for a name is the line of the only label of that name. -/
theorem Program.label_at (h : Program.ofLines lines = .ok p) {name : String} {target : Nat}
    (ht : p.labels.lookup name = some target) :
    target < lines.length ∧
      (∃ t, t.kind = .label ∧ t.literal = name ∧ lines[target]? = some [t] ∧
        p.lines[target]? = some [t]) ∧
      ∀ j u rest, lines[j]? = some (u :: rest) → u.kind = .label → u.literal = name → j = target := by
  obtain ⟨scope, left, hr, rfl⟩ := Program.exists_resolve h
  obtain ⟨t, hline, hk, hn⟩ := (lookup_labels_iff hr).1 ht
  have hleft := (label_line hr hline hk).2.2
  refine ⟨(List.getElem?_eq_some_iff.1 hline).1, ⟨t, hk, hn, hline, by simpa using hleft⟩, ?_⟩
  intro j u rest hj hu hname
  obtain ⟨rfl, -, -⟩ := label_line hr hj hu
  have hlookup := (lookup_labels_iff hr).2 ⟨u, hj, hu, hname⟩
  rw [ht] at hlookup
  exact (Option.some.inj hlookup).symm

namespace Machine

theorem pc_of_step {m m' : Machine σ} {labels : Labels} {line : Line} {result : Except Error Flow}
    (h : m.step labels line = (result, m')) : m'.pc = m.pc := by
  cases step_effect h <;> rfl

theorem step_jump {m m' : Machine σ} {labels : Labels} {line : Line} {target : Nat}
    (h : m.step labels line = (.ok (.jump target), m')) :
    ∃ c head arg rest, line = head :: arg :: rest ∧
      Instruction.ofMnemonic? head.literal = some (.jump c) ∧
      labels.lookup arg.literal = some target := by
  cases step_effect h with
  | @executed head args i result stack output hk hw hi hs he =>
    cases he with
    | @jumped c arg rest a b below target hargs hpop ht hc =>
      subst hargs
      exact ⟨c, head, arg, rest, rfl, hi, Labels.target_eq_ok.1 ht⟩

theorem word_of_jump {m m' : Machine σ} {labels : Labels} {head : Token} {args : List Token}
    {target : Nat} (h : m.step labels (head :: args) = (.ok (.jump target), m')) :
    head.kind = .word ∧ head.literal ≠ declarationWord := by
  cases step_effect h with
  | executed hk hw hi hs he => exact ⟨hk, hw⟩

theorem pc_le_of_advance (h : Program.ofLines lines = .ok p) {m m' : Machine σ}
    (ha : advance p m = (.running, m')) : m'.pc ≤ lines.length := by
  obtain ⟨line, flow, after, hline, hs, rfl⟩ := advance_eq_running.1 ha
  cases flow with
  | next =>
    have hlt : m.pc < p.lines.size := (Array.getElem?_eq_some_iff.1 hline).1
    rw [Program.size_lines h] at hlt
    have hpc := pc_of_step hs
    simp only [follow]
    omega
  | jump target =>
    obtain ⟨c, head, arg, rest, -, -, ht⟩ := step_jump hs
    exact Nat.le_of_lt (Program.label_at h ht).1

theorem pc_le_of_reaches (h : Program.ofLines lines = .ok p) {m m' : Machine σ}
    (hr : Reaches p m m') (start : m.pc ≤ lines.length) : m'.pc ≤ lines.length :=
  hr.invariant (I := fun m => m.pc ≤ lines.length) (fun _ _ _ ha => pc_le_of_advance h ha) start

theorem pc_le_of_run (h : Program.ofLines lines = .ok p) {m m' : Machine σ} {fuel : Nat}
    {status : Status} (hr : run p fuel m = (status, m')) (start : m.pc ≤ lines.length) :
    m'.pc ≤ lines.length := by
  cases status with
  | running => exact pc_le_of_reaches h ⟨fuel, hr⟩ start
  | finished => exact pc_le_of_reaches h (run_finished hr).1 start
  | failed e =>
    obtain ⟨m₁, line, hreach, -, hs⟩ := run_failed hr
    rw [pc_of_step hs]
    exact pc_le_of_reaches h hreach start

theorem pc_of_finished (h : Program.ofLines lines = .ok p) {m m' : Machine σ} {fuel : Nat}
    (hr : run p fuel m = (.finished, m')) (start : m.pc ≤ lines.length) :
    m'.pc = lines.length := by
  have hle := pc_le_of_run h hr start
  have hge := Array.getElem?_eq_none_iff.1 (run_finished hr).2
  rw [Program.size_lines h] at hge
  omega

theorem advance_of_jump {m m' : Machine σ} {line : Line} {target : Nat}
    (hline : p.lines[m.pc]? = some line) (hs : m.step p.labels line = (.ok (.jump target), m')) :
    advance p m = (.running, { m' with pc := target }) := by
  simp only [advance, hline, hs, follow]

end Machine

/-- Wherever a run of a resolved program has come, the line pointer is within the lines or right
behind them; a jump lands on the single line that holds the label named by its argument, and on the
only one of that name; and a run ends well only right behind the last line. -/
theorem control_flow_integrity (h : Program.ofLines lines = .ok p) {m : Machine σ}
    (start : m.pc = 0) :
    (∀ fuel status m', Machine.run p fuel m = (status, m') → m'.pc ≤ lines.length) ∧
    (∀ (m₁ m₂ : Machine σ) line target, p.lines[m₁.pc]? = some line →
      m₁.step p.labels line = (.ok (.jump target), m₂) →
      ∃ c head arg rest, line = head :: arg :: rest ∧
        Instruction.ofMnemonic? head.literal = some (.jump c) ∧
        Machine.advance p m₁ = (.running, { m₂ with pc := target }) ∧ target < lines.length ∧
        (∃ t, t.kind = .label ∧ t.literal = arg.literal ∧ lines[target]? = some [t] ∧
          p.lines[target]? = some [t]) ∧
        ∀ j u us, lines[j]? = some (u :: us) → u.kind = .label → u.literal = arg.literal →
          j = target) ∧
    ∀ fuel m', Machine.run p fuel m = (.finished, m') → m'.pc = lines.length := by
  have hstart : m.pc ≤ lines.length := by omega
  refine ⟨fun fuel status m' hr => Machine.pc_le_of_run h hr hstart, ?_,
    fun fuel m' hr => Machine.pc_of_finished h hr hstart⟩
  intro m₁ m₂ line target hline hs
  obtain ⟨c, head, arg, rest, hcut, hi, ht⟩ := Machine.step_jump hs
  exact ⟨c, head, arg, rest, hcut, hi, Machine.advance_of_jump hline hs, Program.label_at h ht⟩

def skipping : List Line :=
  [[⟨.word, "push", ⟨0, 0⟩⟩, ⟨.number, "1", ⟨0, 5⟩⟩],
    [⟨.word, "push", ⟨1, 0⟩⟩, ⟨.number, "1", ⟨1, 5⟩⟩],
    [⟨.word, "jeq", ⟨2, 0⟩⟩, ⟨.word, "done", ⟨2, 4⟩⟩],
    [⟨.word, "print", ⟨3, 0⟩⟩],
    [⟨.label, "done", ⟨4, 0⟩⟩]]

theorem control_flow_of_skipping :
    ∃ (p : Program) (m₁ m₂ m₃ : Machine PrintedValues), Program.ofLines skipping = .ok p ∧
      Machine.Reaches p { output := {} } m₁ ∧
      p.lines[m₁.pc]? = some [⟨.word, "jeq", ⟨2, 0⟩⟩, ⟨.word, "done", ⟨2, 4⟩⟩] ∧
      Machine.advance p m₁ = (.running, { m₂ with pc := 4 }) ∧
      (∀ j u us, skipping[j]? = some (u :: us) → u.kind = .label → u.literal = "done" → j = 4) ∧
      Machine.run p 5 { output := {} } = (.finished, m₃) ∧ m₃.pc = 5 := by
  have hp : Program.ofLines skipping = .ok ⟨skipping.toArray, [("done", 4)]⟩ := rfl
  obtain ⟨-, hjump, hend⟩ :=
    control_flow_integrity hp (m := ({ output := {} } : Machine PrintedValues)) rfl
  obtain ⟨c, head, arg, rest, hline, -, ha, -, -, honly⟩ :=
    hjump { stack := ⟨[.int 1, .int 1]⟩, pc := 2, afterContent := true, steps := 2, output := {} }
      { pc := 2, afterContent := true, steps := 3, output := {} } _ 4 rfl rfl
  cases hline
  exact ⟨_, _, _, _, hp, ⟨2, rfl⟩, rfl, ha, honly, rfl, hend 5 _ rfl⟩

end Stackline
