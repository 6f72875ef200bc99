import Stackline.Machine
import Mathlib.Tactic.Common

/-! Runs of the execution loop, taken apart into turns. A state is reached when the loop comes by it
with the run still going on; what every turn keeps holds wherever the loop comes by. -/
namespace Stackline.Machine

variable {σ : Type}

section Follow

variable (m : Machine σ) (flow : Flow)

@[simp] theorem stack_follow : (m.follow flow).stack = m.stack := by
  cases flow <;> rfl

@[simp] theorem title_follow : (m.follow flow).title = m.title := by
  cases flow <;> rfl

@[simp] theorem afterContent_follow : (m.follow flow).afterContent = m.afterContent := by
  cases flow <;> rfl

@[simp] theorem steps_follow : (m.follow flow).steps = m.steps := by
  cases flow <;> rfl

end Follow

variable [Output σ] {p : Program} {m m' : Machine σ}

theorem advance_eq_running :
    advance p m = (.running, m') ↔ ∃ line flow after, p.lines[m.pc]? = some line ∧
      m.step p.labels line = (.ok flow, after) ∧ after.follow flow = m' := by
  simp only [advance]
  cases p.lines[m.pc]? with
  | none => simp
  | some line =>
    cases hs : m.step p.labels line with
    | mk result after => cases result <;> simp [hs]

theorem advance_eq_finished :
    advance p m = (.finished, m') ↔ p.lines[m.pc]? = none ∧ m = m' := by
  simp only [advance]
  cases p.lines[m.pc]? with
  | none => simp
  | some line =>
    cases hs : m.step p.labels line with
    | mk result after => cases result <;> simp [hs]

theorem advance_eq_failed {e : Error} :
    advance p m = (.failed e, m') ↔ ∃ line, p.lines[m.pc]? = some line ∧
      m.step p.labels line = (.error e, m') := by
  simp only [advance]
  cases p.lines[m.pc]? with
  | none => simp
  | some line =>
    cases hs : m.step p.labels line with
    | mk result after => cases result <;> simp [hs]

theorem run_succ {fuel : Nat} {status : Status} :
    run p (fuel + 1) m = (status, m') ↔
      (∃ m₁, advance p m = (.running, m₁) ∧ run p fuel m₁ = (status, m')) ∨
        status ≠ .running ∧ advance p m = (status, m') := by
  simp only [run]
  cases advance p m with
  | mk now m₁ => cases now <;> cases status <;> simp

/-- Two programs that take turns alike run alike, up to a change of the machine, as long as every
turn comes to one of the statuses for which this is so. -/
theorem run_lockstep {q : Program} (lift : Machine σ → Machine σ) (Fits : Status → Prop)
    (hrunning : Fits .running)
    (turn : ∀ m₁ status m₂, advance p m₁ = (status, m₂) → Fits status →
      advance q (lift m₁) = (status, lift m₂))
    {fuel : Nat} {status : Status} (h : run p fuel m = (status, m')) (hs : Fits status) :
    run q fuel (lift m) = (status, lift m') := by
  induction fuel generalizing m with
  | zero =>
    cases h
    rfl
  | succ fuel ih =>
    rw [run_succ]
    cases run_succ.1 h with
    | inl hmore =>
      obtain ⟨m₁, ha, hr⟩ := hmore
      exact Or.inl ⟨lift m₁, turn m .running m₁ ha hrunning, ih hr⟩
    | inr hlast => exact Or.inr ⟨hlast.1, turn m status m' hlast.2 hs⟩

theorem run_congr {p' : Program} (h : ∀ m : Machine σ, advance p m = advance p' m) (fuel : Nat)
    (m : Machine σ) : run p fuel m = run p' fuel m :=
  (run_lockstep id (fun _ => True) trivial
    (fun m₁ _ _ ha _ => (h m₁).symm.trans ha) rfl trivial).symm

/-- The loop, started at `m`, comes by `m'`. -/
def Reaches (p : Program) (m m' : Machine σ) : Prop :=
  ∃ turns, run p turns m = (.running, m')

namespace Reaches

theorem refl (p : Program) (m : Machine σ) : Reaches p m m :=
  ⟨0, rfl⟩

theorem head {m₁ : Machine σ} (ha : advance p m = (.running, m₁)) (h : Reaches p m₁ m') :
    Reaches p m m' := by
  obtain ⟨turns, ht⟩ := h
  exact ⟨turns + 1, run_succ.2 (Or.inl ⟨m₁, ha, ht⟩)⟩

theorem invariant {I : Machine σ → Prop}
    (turn : ∀ m₁ m₂, I m₁ → advance p m₁ = (.running, m₂) → I m₂)
    (h : Reaches p m m') (start : I m) : I m' := by
  obtain ⟨turns, ht⟩ := h
  induction turns generalizing m with
  | zero =>
    cases ht
    exact start
  | succ turns ih =>
    cases run_succ.1 ht with
    | inl hmore =>
      obtain ⟨m₁, ha, hr⟩ := hmore
      exact ih (turn m m₁ start ha) hr
    | inr hlast => exact absurd rfl hlast.1

end Reaches

/-- What every step keeps, a failing one too, is kept by runs, unless it is about the pointer. -/
theorem run_invariant {I : Machine σ → Prop}
    (step : ∀ m₁ line result m₂, I m₁ → p.lines[m₁.pc]? = some line →
      m₁.step p.labels line = (result, m₂) → I m₂)
    (follow : ∀ m₁ flow, I m₁ → I (m₁.follow flow))
    {fuel : Nat} {status : Status} (h : run p fuel m = (status, m')) (start : I m) : I m' := by
  induction fuel generalizing m with
  | zero =>
    cases h
    exact start
  | succ fuel ih =>
    cases run_succ.1 h with
    | inl hmore =>
      obtain ⟨m₁, ha, hr⟩ := hmore
      obtain ⟨line, flow, after, hline, hs, rfl⟩ := advance_eq_running.1 ha
      exact ih hr (follow after flow (step m line _ after start hline hs))
    | inr hlast =>
      cases status with
      | running => exact absurd rfl hlast.1
      | finished =>
        obtain ⟨-, rfl⟩ := advance_eq_finished.1 hlast.2
        exact start
      | failed e =>
        obtain ⟨line, hline, hs⟩ := advance_eq_failed.1 hlast.2
        exact step m line _ m' start hline hs

theorem exists_last_turn {fuel : Nat} {status : Status} (h : run p fuel m = (status, m'))
    (hs : status ≠ .running) :
    ∃ m₁, Reaches p m m₁ ∧ advance p m₁ = (status, m') := by
  induction fuel generalizing m with
  | zero =>
    simp only [run, Prod.mk.injEq] at h
    exact absurd h.1.symm hs
  | succ fuel ih =>
    cases run_succ.1 h with
    | inl hmore =>
      obtain ⟨m₁, ha, hr⟩ := hmore
      obtain ⟨m₂, hreach, hlast⟩ := ih hr
      exact ⟨m₂, hreach.head ha, hlast⟩
    | inr hlast => exact ⟨m, .refl p m, hlast.2⟩

theorem run_finished {fuel : Nat} (h : run p fuel m = (.finished, m')) :
    Reaches p m m' ∧ p.lines[m'.pc]? = none := by
  obtain ⟨m₁, hr, ha⟩ := exists_last_turn h (by simp)
  obtain ⟨hn, rfl⟩ := advance_eq_finished.1 ha
  exact ⟨hr, hn⟩

theorem run_failed {fuel : Nat} {e : Error} (h : run p fuel m = (.failed e, m')) :
    ∃ m₁ line, Reaches p m m₁ ∧ p.lines[m₁.pc]? = some line ∧
      m₁.step p.labels line = (.error e, m') := by
  obtain ⟨m₁, hr, ha⟩ := exists_last_turn h (by simp)
  obtain ⟨line, hl, hs⟩ := advance_eq_failed.1 ha
  exact ⟨m₁, line, hr, hl, hs⟩

/-- The loop, started at `m`, ends at `m'`. -/
def Ends (p : Program) (m : Machine σ) (status : Status) (m' : Machine σ) : Prop :=
  status ≠ .running ∧ ∃ fuel, run p fuel m = (status, m')

theorem run_of_ended {fuel : Nat} {status : Status} (h : run p fuel m = (status, m'))
    (hs : status ≠ .running) {more : Nat} (hle : fuel ≤ more) : run p more m = (status, m') := by
  obtain ⟨k, rfl⟩ := Nat.exists_eq_add_of_le hle
  rw [run_add, h]
  cases status with
  | running => exact absurd rfl hs
  | finished => rfl
  | failed e => rfl

theorem Ends.of_advance {status : Status} (h : advance p m = (status, m'))
    (hs : status ≠ .running) : Ends p m status m' := by
  exact ⟨hs, 1, run_succ.2 (Or.inr ⟨hs, h⟩)⟩

theorem Ends.unique {s₁ s₂ : Status} {m₁ m₂ : Machine σ} (h₁ : Ends p m s₁ m₁)
    (h₂ : Ends p m s₂ m₂) : s₁ = s₂ ∧ m₁ = m₂ := by
  obtain ⟨hs₁, fuel₁, hr₁⟩ := h₁
  obtain ⟨hs₂, fuel₂, hr₂⟩ := h₂
  have hmore₁ := run_of_ended hr₁ hs₁ (Nat.le_add_right fuel₁ fuel₂)
  have hmore₂ := run_of_ended hr₂ hs₂ (Nat.le_add_left fuel₂ fuel₁)
  rw [hmore₁] at hmore₂
  exact Prod.mk.inj hmore₂

theorem Reaches.ends_iff {m₁ : Machine σ} {status : Status} (h : Reaches p m m₁) :
    Ends p m status m' ↔ Ends p m₁ status m' := by
  obtain ⟨turns, ht⟩ := h
  have hadd (fuel : Nat) : run p (turns + fuel) m = run p fuel m₁ := by rw [run_add, ht]
  constructor
  · intro hend
    obtain ⟨hs, fuel, hf⟩ := hend
    exact ⟨hs, fuel, (hadd fuel).symm.trans (run_of_ended hf hs (Nat.le_add_left fuel turns))⟩
  · intro hend
    obtain ⟨hs, fuel, hf⟩ := hend
    exact ⟨hs, turns + fuel, (hadd fuel).trans hf⟩

section Simulation

variable {q : Program} {lift : Machine σ → Machine σ}

/-- If each turn of one program is one or more turns of another, its runs are at least as long. -/
theorem run_simulated
    (turn : ∀ m₁ m₂, advance p m₁ = (.running, m₂) →
      ∃ more, run q (more + 1) (lift m₁) = (.running, lift m₂))
    {turns : Nat} (h : run p turns m = (.running, m')) :
    ∃ k, turns ≤ k ∧ run q k (lift m) = (.running, lift m') := by
  induction turns generalizing m with
  | zero =>
    cases h
    exact ⟨0, Nat.le_refl 0, rfl⟩
  | succ turns ih =>
    cases run_succ.1 h with
    | inl hmore =>
      obtain ⟨m₁, ha, hr⟩ := hmore
      obtain ⟨more, hturn⟩ := turn m m₁ ha
      obtain ⟨k, hk, hrun⟩ := ih hr
      refine ⟨more + 1 + k, by omega, ?_⟩
      rw [run_add, hturn]
      exact hrun
    | inr hlast => exact absurd rfl hlast.1

/-- One program ends exactly if the other does, and the ends correspond. -/
theorem ends_simulated {see : Status → Status}
    (turn : ∀ m₁ m₂, advance p m₁ = (.running, m₂) →
      ∃ more, run q (more + 1) (lift m₁) = (.running, lift m₂))
    (stop : ∀ m₁ status m₂, advance p m₁ = (status, m₂) → status ≠ .running →
      Ends q (lift m₁) (see status) (lift m₂))
    {m m'' : Machine σ} {status' : Status} :
    Ends q (lift m) status' m'' ↔
      ∃ status m', Ends p m status m' ∧ status' = see status ∧ m'' = lift m' := by
  have forward {status : Status} {m' : Machine σ} (h : Ends p m status m') :
      Ends q (lift m) (see status) (lift m') := by
    obtain ⟨hs, fuel, hf⟩ := h
    obtain ⟨m₁, ⟨turns, hturns⟩, hlast⟩ := exists_last_turn hf hs
    obtain ⟨k, -, hk⟩ := run_simulated turn hturns
    exact (Reaches.ends_iff ⟨k, hk⟩).2 (stop m₁ status m' hlast hs)
  constructor
  · intro h
    obtain ⟨hs, fuel, hf⟩ := h
    cases hp : run p fuel m with
    | mk status m' =>
      by_cases hrunning : status = .running
      · -- A run that goes on for as many turns keeps the other going on beyond its end.
        subst hrunning
        obtain ⟨k, hle, hk⟩ := run_simulated turn hp
        rw [run_of_ended hf hs hle] at hk
        exact absurd (Prod.mk.inj hk).1 hs
      · have hend : Ends p m status m' := ⟨hrunning, fuel, hp⟩
        obtain ⟨hstatus, hm⟩ := Ends.unique ⟨hs, fuel, hf⟩ (forward hend)
        exact ⟨status, m', hend, hstatus, hm⟩
  · intro h
    obtain ⟨status, m', hend, rfl, rfl⟩ := h
    exact forward hend

end Simulation
end Stackline.Machine
