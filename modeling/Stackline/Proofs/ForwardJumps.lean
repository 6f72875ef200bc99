import Stackline.Proofs.ControlFlow

/-! Programs whose jumps all lead down. Every turn brings the line pointer further down, so that a
run comes by each line at most once, and is over after as many turns as there are lines ahead. -/
namespace Stackline

/-- Where a line jumps to a label of the table, the label is further down. -/
def Program.JumpsForward (p : Program) : Prop :=
  ∀ (i : Nat) (head arg : Token) (rest : List Token) (c : Condition) (target : Nat),
    p.lines[i]? = some (head :: arg :: rest) → head.kind = .word →
    head.literal = (Instruction.jump c).mnemonic → p.labels.lookup arg.literal = some target →
    i < target

namespace Machine

variable {σ : Type} [Output σ] {p : Program} {m m' : Machine σ}

theorem pc_lt_of_advance (hp : p.JumpsForward) (h : advance p m = (.running, m')) :
    m.pc < m'.pc := by
  obtain ⟨line, flow, after, hline, hs, rfl⟩ := advance_eq_running.1 h
  cases flow with
  | next =>
    rw [← pc_of_step hs]
    exact Nat.lt_succ_self after.pc
  | jump target =>
    obtain ⟨c, head, arg, rest, rfl, hi, ht⟩ := step_jump hs
    have hname := (Instruction.mnemonic_of_ofMnemonic? hi).symm
    exact hp m.pc head arg rest c target hline (word_of_jump hs).1 hname ht

theorem pc_of_forward_run (hp : p.JumpsForward) {turns : Nat}
    (h : run p turns m = (.running, m')) : m.pc + turns ≤ m'.pc := by
  induction turns generalizing m with
  | zero =>
    cases h
    exact Nat.le_refl _
  | succ turns ih =>
    cases run_succ.1 h with
    | inl hmore =>
      obtain ⟨m₁, ha, hr⟩ := hmore
      have hlt := pc_lt_of_advance hp ha
      have hle := ih hr
      omega
    | inr hlast => exact absurd rfl hlast.1

theorem pc_lt_of_forward_runs (hp : p.JumpsForward) {i j : Nat} {m₁ m₂ : Machine σ} (hij : i < j)
    (h₁ : run p i m = (.running, m₁)) (h₂ : run p j m = (.running, m₂)) : m₁.pc < m₂.pc := by
  obtain ⟨k, rfl⟩ := Nat.exists_eq_add_of_lt hij
  rw [Nat.add_assoc, run_add, h₁] at h₂
  have hle := pc_of_forward_run hp h₂
  omega

theorem steps_of_step {labels : Labels} {line : Line} {result : Except Error Flow}
    (h : m.step labels line = (result, m')) : m.steps ≤ m'.steps ∧ m'.steps ≤ m.steps + 1 := by
  cases step_effect h <;> simp

theorem steps_of_advance {status : Status} (h : advance p m = (status, m'))
    (hs : status ≠ .finished) : m.pc < p.lines.size ∧ m'.steps ≤ m.steps + 1 := by
  cases status with
  | finished => exact absurd rfl hs
  | running =>
    obtain ⟨line, flow, after, hline, hstep, rfl⟩ := advance_eq_running.1 h
    rw [steps_follow]
    exact ⟨(Array.getElem?_eq_some_iff.1 hline).1, (steps_of_step hstep).2⟩
  | failed e =>
    obtain ⟨line, hline, hstep⟩ := advance_eq_failed.1 h
    exact ⟨(Array.getElem?_eq_some_iff.1 hline).1, (steps_of_step hstep).2⟩

theorem steps_of_run {fuel : Nat} {status : Status} (h : run p fuel m = (status, m')) :
    m.steps ≤ m'.steps :=
  run_invariant (I := fun m₁ => m.steps ≤ m₁.steps)
    (fun _ _ _ _ hle _ hs => Nat.le_trans hle (steps_of_step hs).1)
    (fun m₁ flow hle => by rwa [steps_follow]) h (Nat.le_refl m.steps)

theorem Reaches.steps_le {m₁ : Machine σ} {status : Status} (h : Reaches p m m₁)
    (hend : Ends p m status m') : m₁.steps ≤ m'.steps := by
  obtain ⟨-, fuel, hrun⟩ := h.ends_iff.1 hend
  exact steps_of_run hrun

theorem steps_of_forward_run (hp : p.JumpsForward) {fuel : Nat} {status : Status}
    (h : run p fuel m = (status, m')) : m'.steps ≤ m.steps + (p.lines.size - m.pc) := by
  induction fuel generalizing m with
  | zero =>
    cases h
    exact Nat.le_add_right _ _
  | succ fuel ih =>
    cases run_succ.1 h with
    | inl hmore =>
      obtain ⟨m₁, ha, hr⟩ := hmore
      obtain ⟨hlt, hone⟩ := steps_of_advance ha (by simp)
      have hdown := pc_lt_of_advance hp ha
      have hle := ih hr
      omega
    | inr hlast =>
      by_cases hs : status = .finished
      · subst hs
        obtain ⟨-, rfl⟩ := advance_eq_finished.1 hlast.2
        exact Nat.le_add_right _ _
      · obtain ⟨hlt, hone⟩ := steps_of_advance hlast.2 hs
        omega

theorem exists_end_of_forward (hp : p.JumpsForward) (m : Machine σ) :
    ∃ turns m', turns ≤ p.lines.size - m.pc ∧
      (run p turns m = (.running, m') ∧ advance p m' = (.finished, m') ∨
        ∃ e, run p turns m = (.failed e, m')) := by
  -- By the number of lines ahead, which every turn makes smaller.
  induction hn : p.lines.size - m.pc using Nat.strongRecOn generalizing m with
  | ind n ih =>
    cases ha : advance p m with
    | mk status m₁ =>
      cases status with
      | finished =>
        obtain ⟨-, rfl⟩ := advance_eq_finished.1 ha
        exact ⟨0, m, Nat.zero_le n, Or.inl ⟨rfl, ha⟩⟩
      | failed e =>
        have hlt := (steps_of_advance ha (by simp)).1
        exact ⟨1, m₁, by omega, Or.inr ⟨e, run_succ.2 (Or.inr ⟨by simp, ha⟩)⟩⟩
      | running =>
        have hlt := (steps_of_advance ha (by simp)).1
        have hdown := pc_lt_of_advance hp ha
        obtain ⟨turns, m', hle, hend⟩ := ih (p.lines.size - m₁.pc) (by omega) m₁ rfl
        refine ⟨turns + 1, m', by omega, ?_⟩
        cases hend with
        | inl hfinished =>
          exact Or.inl ⟨run_succ.2 (Or.inl ⟨m₁, ha, hfinished.1⟩), hfinished.2⟩
        | inr hfailed =>
          obtain ⟨e, he⟩ := hfailed
          exact Or.inr ⟨e, run_succ.2 (Or.inl ⟨m₁, ha, he⟩)⟩

end Machine

/-- Without jumps that lead up every run is over, well or not, after at most as many turns as there
are lines from the pointer on; no line has its turn twice, and no more instructions are counted. -/
theorem forward_jumps_end {σ : Type} [Output σ] {p : Program} (hp : p.JumpsForward)
    (m : Machine σ) :
    (∃ turns m', turns ≤ p.lines.size - m.pc ∧
      (Machine.run p turns m = (.running, m') ∧ Machine.advance p m' = (.finished, m') ∨
        ∃ e, Machine.run p turns m = (.failed e, m'))) ∧
    (∀ i j m₁ m₂, i < j → Machine.run p i m = (.running, m₁) →
      Machine.run p j m = (.running, m₂) → m₁.pc < m₂.pc) ∧
    ∀ fuel status m', Machine.run p fuel m = (status, m') →
      m.steps ≤ m'.steps ∧ m'.steps ≤ m.steps + (p.lines.size - m.pc) := by
  refine ⟨Machine.exists_end_of_forward hp m, ?_, ?_⟩
  · intro i j m₁ m₂ hij h₁ h₂
    exact Machine.pc_lt_of_forward_runs hp hij h₁ h₂
  · intro fuel status m' h
    exact ⟨Machine.steps_of_run h, Machine.steps_of_forward_run hp h⟩

def comparing : Program :=
  ⟨#[[⟨.word, "jgt", ⟨0, 0⟩⟩, ⟨.word, "done", ⟨0, 4⟩⟩],
    [⟨.word, "push", ⟨1, 0⟩⟩, ⟨.string, "not larger", ⟨1, 5⟩⟩],
    [⟨.word, "print", ⟨2, 0⟩⟩],
    [⟨.label, "done", ⟨3, 0⟩⟩]], [("done", 3)]⟩

theorem forward_jumps_end_of_comparing :
    comparing.JumpsForward ∧
      ∃ turns m', turns ≤ 4 ∧
        (Machine.run comparing turns
              ({ stack := .ofList [.int 1, .int 2], output := {} } : Machine PrintedValues) =
            (.running, m') ∧ Machine.advance comparing m' = (.finished, m') ∨
          ∃ e, Machine.run comparing turns
              ({ stack := .ofList [.int 1, .int 2], output := {} } : Machine PrintedValues) =
            (.failed e, m')) := by
  have hp : comparing.JumpsForward := by
    intro i head arg rest c target hline hk hname ht
    match i with
    | 0 =>
      cases hline
      cases ht
      decide
    | 1 =>
      cases hline
      cases c <;> exact absurd hname (by decide)
    | 2 | 3 => cases hline
    | i + 4 => cases hline
  obtain ⟨hend, -⟩ := forward_jumps_end hp
    ({ stack := .ofList [.int 1, .int 2], output := {} } : Machine PrintedValues)
  exact ⟨hp, hend⟩

end Stackline
