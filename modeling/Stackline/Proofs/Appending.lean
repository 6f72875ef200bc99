import Stackline.Proofs.ControlFlow
import Stackline.Proofs.Outcomes
import Stackline.Proofs.Renumbering

/-! Code that is appended to a program changes nothing of what the program did before. Labels of the
front lead where they led, and the front is resolved without looking at what follows it. -/
namespace Stackline

/-- One program is the beginning of another: its lines are there, and its labels lead to them. -/
structure Program.Begins (p q : Program) : Prop where
  lines : ∀ (i : Nat) (line : Line), p.lines[i]? = some line → q.lines[i]? = some line
  labels : ∀ name target, p.labels.lookup name = some target → q.labels.lookup name = some target

theorem Program.begins_of_append {front back : List Line} {q : Program}
    (h : Program.ofLines (front ++ back) = .ok q) :
    ∃ p, Program.ofLines front = .ok p ∧ p.Begins q := by
  obtain ⟨scope, left, hr, rfl⟩ := Program.exists_resolve h
  obtain ⟨s, l, r, hfront, hback, rfl⟩ := Scope.resolveFrom_append_ok.1 hr
  refine ⟨⟨l.toArray, s.labels⟩, ?_, ?_, ?_⟩
  · simp only [Program.ofLines, resolve, hfront]
  · intro i line hi
    simp only [List.getElem?_toArray] at hi ⊢
    rw [List.getElem?_append_left (List.getElem?_eq_some_iff.1 hi).1, hi]
  · intro name target hname
    exact (Scope.lookup_labels_resolveFrom hback name target).2 (Or.inl hname)

theorem Line.renumber_id (line : Line) : line.renumber id = line :=
  List.map_id line

theorem renumbered_id (result : Except Error Flow) :
    renumbered id (Flow.renumber id) result = result := by
  cases result with
  | error e => rfl
  | ok flow => cases flow <;> rfl

namespace Machine

variable {σ : Type} [Output σ] {p q : Program} {m m' : Machine σ}

theorem step_of_more_labels {labels labels' : Labels} {line : Line} {result : Except Error Flow}
    (h : m.step labels line = (result, m'))
    (hmore : ∀ name target, labels.lookup name = some target → labels'.lookup name = some target)
    (hfound : ∀ e name, result = .error e → e.cause ≠ .unknownLabel name) :
    m.step labels' line = (result, m') := by
  have hl : Labels.LeadsAlike id labels labels' result :=
    ⟨hmore, fun e name he hc => absurd hc (hfound e name he)⟩
  have hs : m.step labels' _ = (_, { m' with pc := m.pc }) :=
    ((step_effect h).renumber hl m.pc).step_eq
  rwa [Line.renumber_id, renumbered_id, ← pc_of_step h] at hs

theorem advance_of_begins (hpq : p.Begins q) {status : Status} (h : advance p m = (status, m'))
    (hfits : status ≠ .finished ∧ ∀ e name, status = .failed e → e.cause ≠ .unknownLabel name) :
    advance q m = (status, m') := by
  cases status with
  | running =>
    obtain ⟨line, flow, after, hline, hs, hfollow⟩ := advance_eq_running.1 h
    exact advance_eq_running.2 ⟨line, flow, after, hpq.lines _ _ hline,
      step_of_more_labels hs hpq.labels (by simp), hfollow⟩
  | finished => exact absurd rfl hfits.1
  | failed e =>
    obtain ⟨line, hline, hs⟩ := advance_eq_failed.1 h
    refine advance_eq_failed.2 ⟨line, hpq.lines _ _ hline, step_of_more_labels hs hpq.labels ?_⟩
    intro e' name he
    cases he
    exact hfits.2 e name rfl

theorem run_of_begins (hpq : p.Begins q) {fuel : Nat} {status : Status}
    (h : run p fuel m = (status, m'))
    (hfits : status ≠ .finished ∧ ∀ e name, status = .failed e → e.cause ≠ .unknownLabel name) :
    run q fuel m = (status, m') :=
  run_lockstep id
    (fun status => status ≠ .finished ∧
      ∀ e name, status = .failed e → e.cause ≠ .unknownLabel name)
    (by simp) (fun _ _ _ ha hs => advance_of_begins hpq ha hs) h hfits

end Machine

variable {σ : Type} [Output σ]

/-- Where the front alone comes to its end, the whole program comes by in the same state and goes
on; and where the front alone fails for another reason than a label that it lacks, the whole fails
too. -/
theorem appended_code_is_inert {front back : List Line} {q : Program}
    (h : Program.ofLines (front ++ back) = .ok q) (output : σ) :
    (∀ fuel report left, runLines fuel front output = (.finished report, left) →
      ∃ p m, Program.ofLines front = .ok p ∧
        Machine.run p fuel { output } = (.finished, m) ∧ m.report = report ∧ m.output = left ∧
        m.pc = front.length ∧
        ∃ turns, Machine.run q turns { output } = (.running, m) ∧
          ∀ more, Machine.run q (turns + more) { output } = Machine.run q more m) ∧
    ∀ fuel e left, runLines fuel front output = (.failed e, left) →
      (∀ name, e.cause ≠ .unknownLabel name) →
      runLines fuel (front ++ back) output = (.failed e, left) := by
  obtain ⟨p, hp, hpq⟩ := Program.begins_of_append h
  constructor
  · intro fuel report left hrun
    rw [runLines_of_ofLines hp, Program.run_eq_finished] at hrun
    obtain ⟨m, hrun, hreport, hleft⟩ := hrun
    obtain ⟨turns, hturns⟩ := (Machine.run_finished hrun).1
    have hq := Machine.run_of_begins hpq hturns (by simp)
    have hpc := Machine.pc_of_finished hp hrun (Nat.zero_le _)
    refine ⟨p, m, hp, hrun, hreport, hleft, hpc, turns, hq, ?_⟩
    intro more
    rw [Machine.run_add, hq]
  · intro fuel e left hrun hfound
    rw [runLines_of_ofLines hp, Program.run_eq_failed] at hrun
    obtain ⟨m, hrun, hleft⟩ := hrun
    rw [runLines_of_ofLines h, Program.run_eq_failed]
    refine ⟨m, Machine.run_of_begins hpq hrun ⟨by simp, ?_⟩, hleft⟩
    intro e' name he
    cases he
    exact hfound name

def greeting : List Line :=
  [[⟨.word, "push", ⟨0, 0⟩⟩, ⟨.string, "hi", ⟨0, 5⟩⟩], [⟨.word, "print", ⟨1, 0⟩⟩]]

def endless : List Line :=
  [[⟨.label, "again", ⟨2, 0⟩⟩],
    [⟨.word, "push", ⟨3, 0⟩⟩, ⟨.number, "0", ⟨3, 5⟩⟩],
    [⟨.word, "dup", ⟨4, 0⟩⟩],
    [⟨.word, "j", ⟨5, 0⟩⟩, ⟨.word, "again", ⟨5, 2⟩⟩]]

theorem endless_is_inert :
    (∃ q turns m, Program.ofLines (greeting ++ endless) = .ok q ∧
      runLines 3 greeting ({} : PrintedValues) = (.finished ⟨none, .empty, 2⟩, ⟨#[.text "hi"]⟩) ∧
      Machine.run q turns { output := ({} : PrintedValues) } = (.running, m) ∧ m.pc = 2 ∧
      m.report = ⟨none, .empty, 2⟩ ∧ m.output = ⟨#[.text "hi"]⟩) ∧
    runLines 1 (greeting.drop 1 ++ endless) ({} : PrintedValues) =
      (.failed ⟨⟨1, 0⟩, .stackUnderflow⟩, {}) := by
  have hwhole : Program.ofLines (greeting ++ endless) =
      .ok ⟨(greeting ++ endless).toArray, [("again", 2)]⟩ := rfl
  have hrun : runLines 3 greeting ({} : PrintedValues) =
      (.finished ⟨none, .empty, 2⟩, ⟨#[.text "hi"]⟩) := rfl
  have hshort : Program.ofLines (greeting.drop 1 ++ endless) =
      .ok ⟨(greeting.drop 1 ++ endless).toArray, [("again", 1)]⟩ := rfl
  constructor
  · obtain ⟨p, m, -, -, hreport, hleft, hpc, turns, hturns, -⟩ :=
      (appended_code_is_inert hwhole ({} : PrintedValues)).1 3 _ _ hrun
    exact ⟨_, turns, m, hwhole, hrun, hturns, hpc, hreport, hleft⟩
  · exact (appended_code_is_inert hshort ({} : PrintedValues)).2 1 _ _ rfl (by simp)

end Stackline
