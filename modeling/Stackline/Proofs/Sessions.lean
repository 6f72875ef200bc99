import Stackline.Session
import Stackline.Proofs.Printing

/-! Several runs on one session, with lines read in between. A run finds nothing of the runs before
it but what they printed, and only prints behind that; and it does not read. -/
namespace Stackline

inductive Request where
  | text (fuel : Nat) (source : String)
  | lines (fuel : Nat) (lines : List Line)
  | readLine
  deriving DecidableEq, Inhabited

inductive Answer where
  | ran (outcome : Outcome)
  | read (line : Except ReadError String)
  deriving DecidableEq, Inhabited

namespace Request

def program? : Request → Option (Except Error Program)
  | text _ source => some (Program.ofText source)
  | lines _ ls => some (Program.ofLines ls)
  | readLine => none

def isRead (r : Request) : Bool :=
  r.program?.isNone

theorem eq_readLine {r : Request} (h : r.isRead = true) : r = readLine := by
  cases r with
  | text fuel source => cases h
  | lines fuel ls => cases h
  | readLine => rfl

end Request

def Answer.isRead : Answer → Bool
  | ran _ => false
  | read _ => true

namespace Session

variable {σ ι : Type} [Output σ] [Input ι]

def fresh (input : ι) : Session PrintedValues ι :=
  ⟨{}, input⟩

def answer (s : Session σ ι) : Request → Answer × Session σ ι
  | .text fuel source =>
    match s.runText fuel source with
    | (outcome, s) => (.ran outcome, s)
  | .lines fuel lines =>
    match s.runLines fuel lines with
    | (outcome, s) => (.ran outcome, s)
  | .readLine =>
    match s.readLine with
    | (line, s) => (.read line, s)

def answerAll (s : Session σ ι) : List Request → List Answer × Session σ ι
  | [] => ([], s)
  | r :: requests =>
    match s.answer r with
    | (a, s) =>
      match s.answerAll requests with
      | (answers, s) => (a :: answers, s)

end Session

theorem Output.feed_printed (printed : PrintedValues) (vs : List Value) :
    Output.feed printed vs = (.ok (), ⟨printed.values ++ vs.toArray⟩) := by
  induction vs generalizing printed with
  | nil => simp [feed]
  | cons v vs ih =>
    refine Output.feed_cons_ok.2 ⟨_, rfl, ?_⟩
    rw [ih]
    simp

theorem Program.run_printed (p : Program) (fuel : Nat) (printed : PrintedValues) :
    p.run fuel printed =
      ((p.run fuel ({} : PrintedValues)).1,
        ⟨printed.values ++ (p.run fuel ({} : PrintedValues)).2.values⟩) := by
  cases hr : Machine.run p fuel { output := ({} : PrintedValues) } with
  | mk status m =>
    have hfed := Output.feed_printed printed m.output.values.toList
    have hrun : Machine.run p fuel { output := printed } = (status, m.into _) :=
      Machine.run_fed hr (by simp) hfed
    rw [Program.run_eq, Program.run_eq, hrun, hr]
    cases status <;> simp [Machine.into, Machine.outcome, Machine.report]

theorem runLines_printed (fuel : Nat) (lines : List Line) (printed : PrintedValues) :
    runLines fuel lines printed =
      ((runLines fuel lines ({} : PrintedValues)).1,
        ⟨printed.values ++ (runLines fuel lines ({} : PrintedValues)).2.values⟩) := by
  simp only [runLines]
  cases Program.ofLines lines with
  | error e => simp
  | ok p => exact p.run_printed fuel printed

theorem runText_printed (fuel : Nat) (text : String) (printed : PrintedValues) :
    runText fuel text printed =
      ((runText fuel text ({} : PrintedValues)).1,
        ⟨printed.values ++ (runText fuel text ({} : PrintedValues)).2.values⟩) := by
  simp only [runText]
  cases Line.ofText text with
  | error e => simp
  | ok lines => exact runLines_printed fuel lines printed

namespace Session

variable {σ ι : Type} [Output σ] [Input ι]

theorem answer_of_error (s : Session σ ι) {r : Request} {e : Error}
    (h : r.program? = some (.error e)) : s.answer r = (.ran (.failed e), s) := by
  cases r with
  | text fuel source =>
    have ho : Program.ofText source = .error e := Option.some.inj h
    simp only [answer, runText, runText_eq, ho]
  | lines fuel ls =>
    have ho : Program.ofLines ls = .error e := Option.some.inj h
    simp only [answer, runLines, Stackline.runLines, ho]
  | readLine => cases h

theorem answer_readLine (s : Session σ ι) :
    s.answer .readLine =
      (.read (Input.readLine s.input).1, ⟨s.output, (Input.readLine s.input).2⟩) := rfl

/-- A run is the same on every session, prints behind what is there, and leaves the input alone. -/
theorem answer_run (s : Session PrintedValues ι) (input : ι) {r : Request}
    (h : r.isRead = false) :
    s.answer r =
      (((fresh input).answer r).1,
        ⟨⟨s.output.values ++ ((fresh input).answer r).2.output.values⟩, s.input⟩) := by
  cases r with
  | text fuel source => simp only [fresh, answer, runText, runText_printed fuel source s.output]
  | lines fuel ls => simp only [fresh, answer, runLines, runLines_printed fuel ls s.output]
  | readLine => cases h

theorem answerAll_cons (s : Session σ ι) (r : Request) (requests : List Request) :
    s.answerAll (r :: requests) =
      ((s.answer r).1 :: ((s.answer r).2.answerAll requests).1,
        ((s.answer r).2.answerAll requests).2) := rfl

theorem answerAll_append (s : Session σ ι) (front back : List Request) :
    s.answerAll (front ++ back) =
      ((s.answerAll front).1 ++ ((s.answerAll front).2.answerAll back).1,
        ((s.answerAll front).2.answerAll back).2) := by
  induction front generalizing s with
  | nil => rfl
  | cons r front ih => simp only [List.cons_append, answerAll_cons, ih]

theorem length_answerAll (s : Session σ ι) (requests : List Request) :
    (s.answerAll requests).1.length = requests.length := by
  induction requests generalizing s with
  | nil => rfl
  | cons r requests ih => rw [answerAll_cons, List.length_cons, ih, List.length_cons]

theorem getElem?_answerAll (s : Session σ ι) {requests : List Request} {i : Nat} {r : Request}
    (h : requests[i]? = some r) :
    (s.answerAll requests).1[i]? = some ((s.answerAll (requests.take i)).2.answer r).1 := by
  induction requests generalizing s i with
  | nil => simp at h
  | cons r' requests ih =>
    cases i with
    | zero =>
      cases h
      rfl
    | succ i => exact ih (s.answer r').2 h

theorem output_answerAll (s : Session PrintedValues ι) (input : ι) (requests : List Request) :
    (s.answerAll requests).2.output.values.toList =
      s.output.values.toList ++
        requests.flatMap fun r => ((fresh input).answer r).2.output.values.toList := by
  induction requests generalizing s with
  | nil => simp [answerAll]
  | cons r requests ih =>
    have hstep : (s.answer r).2.output.values =
        s.output.values ++ ((fresh input).answer r).2.output.values := by
      cases hr : r.isRead with
      | false => rw [answer_run s input hr]
      | true =>
        rw [Request.eq_readLine hr, answer_readLine, answer_readLine]
        exact Array.append_empty.symm
    rw [answerAll_cons, ih, hstep, Array.toList_append, List.append_assoc, List.flatMap_cons]

/-- Two sessions with the same input read the same, whatever the one runs in between. -/
theorem reads_answerAll {s t : Session PrintedValues ι} (h : s.input = t.input)
    (requests : List Request) :
    (s.answerAll requests).1.filter Answer.isRead =
        (t.answerAll (requests.filter Request.isRead)).1 ∧
      (s.answerAll requests).2.input = (t.answerAll (requests.filter Request.isRead)).2.input := by
  induction requests generalizing s t with
  | nil => exact ⟨rfl, h⟩
  | cons r requests ih =>
    cases hr : r.isRead with
    | false =>
      have hinput : (s.answer r).2.input = t.input := by rw [answer_run s s.input hr, h]
      have hran : (s.answer r).1.isRead = false := by
        cases r with
        | text fuel source => rfl
        | lines fuel ls => rfl
        | readLine => cases hr
      rw [answerAll_cons, List.filter_cons_of_neg (by simp [hran]),
        List.filter_cons_of_neg (by simp [hr])]
      exact ih hinput
    | true =>
      obtain rfl := Request.eq_readLine hr
      have hinput : (s.answer .readLine).2.input = (t.answer .readLine).2.input := by
        rw [answer_readLine, answer_readLine, h]
      have hline : (s.answer .readLine).1 = (t.answer .readLine).1 := by
        rw [answer_readLine, answer_readLine, h]
      obtain ⟨hreads, hleft⟩ := ih hinput
      rw [answerAll_cons, List.filter_cons_of_pos (by rfl), List.filter_cons_of_pos hr,
        answerAll_cons, hreads, hline]
      exact ⟨rfl, hleft⟩

end Session

/-- Whatever a session is asked for, in whatever order: a run ends as on a fresh session; the output
is what was there, followed by what each run prints on a fresh session; a program that cannot be
read or resolved ends with that error and prints nothing; and the lines read are those that are
read without any run. -/
theorem runs_are_independent {ι : Type} [Input ι] (s : Session PrintedValues ι)
    (requests : List Request) (input : ι) :
    (s.answerAll requests).1.length = requests.length ∧
    (∀ (i : Nat) r, requests[i]? = some r → r.isRead = false →
      (s.answerAll requests).1[i]? = some ((Session.fresh input).answer r).1) ∧
    (s.answerAll requests).2.output.values.toList =
      s.output.values.toList ++
        requests.flatMap (fun r => ((Session.fresh input).answer r).2.output.values.toList) ∧
    (∀ (i : Nat) r e, requests[i]? = some r → r.program? = some (.error e) →
      (s.answerAll requests).1[i]? = some (.ran (.failed e)) ∧
      (s.answerAll (requests.take (i + 1))).2.output =
        (s.answerAll (requests.take i)).2.output) ∧
    (s.answerAll requests).1.filter Answer.isRead =
      (s.answerAll (requests.filter Request.isRead)).1 ∧
    (s.answerAll requests).2.input = (s.answerAll (requests.filter Request.isRead)).2.input := by
  refine ⟨s.length_answerAll requests, ?_, s.output_answerAll input requests, ?_,
    Session.reads_answerAll rfl requests⟩
  · intro i r hi hr
    rw [s.getElem?_answerAll hi, Session.answer_run _ input hr]
  · intro i r e hi he
    have hanswer := Session.answer_of_error (s.answerAll (requests.take i)).2 he
    have htake : requests.take (i + 1) = requests.take i ++ [r] := by
      rw [List.take_add_one, hi]
      rfl
    refine ⟨by rw [s.getElem?_answerAll hi, hanswer], ?_⟩
    rw [htake, Session.answerAll_append, Session.answerAll_cons, hanswer]
    rfl

/-- A titled run and one with the same label, which fails after it has printed; a jump to that label;
a name given twice; lines that print and leave something; and lines read between them. -/
def mixedRequests : List Request :=
  [.text 9 ".title \"first\"\n:a\npush 1\nprint\npush 5\n", .readLine,
    .text 9 ":a\npush 2\nprint\nprint\n", .text 9 "push 1\npush 1\nj a\n", .readLine,
    .text 9 "push 3\nprint\n:b\n:b\n",
    .lines 9
      [[⟨.label, "b", ⟨0, 0⟩⟩],
        [⟨.word, "push", ⟨1, 0⟩⟩, ⟨.string, "é", ⟨1, 5⟩⟩],
        [⟨.word, "dup", ⟨2, 0⟩⟩],
        [⟨.word, "print", ⟨3, 0⟩⟩]],
    .readLine]

theorem mixed_runs_are_independent :
    let s : Session PrintedValues Script := ⟨⟨#[.int 7]⟩, ⟨[.ok "yes", .error "lost"]⟩⟩
    (s.answerAll mixedRequests).2.output.values.toList = [.int 7, .int 1, .int 2, .text "é"] ∧
    (s.answerAll mixedRequests).1[0]? =
      some (.ran (.finished ⟨some "first", .ofList [.int 5], 3⟩)) ∧
    (s.answerAll mixedRequests).1[2]? = some (.ran (.failed ⟨⟨3, 0⟩, .stackUnderflow⟩)) ∧
    (s.answerAll mixedRequests).1[3]? = some (.ran (.failed ⟨⟨2, 2⟩, .unknownLabel "a"⟩)) ∧
    (s.answerAll mixedRequests).1[5]? = some (.ran (.failed ⟨⟨3, 0⟩, .labelAlreadyDefined "b"⟩)) ∧
    (s.answerAll (mixedRequests.take 6)).2.output =
      (s.answerAll (mixedRequests.take 5)).2.output ∧
    (s.answerAll mixedRequests).1[6]? =
      some (.ran (.finished ⟨none, .ofList [.text "é"], 3⟩)) ∧
    (s.answerAll mixedRequests).1.filter Answer.isRead =
      [.read (.ok "yes"), .read (.error (.other "lost")), .read (.error .closed)] := by
  intro s
  obtain ⟨-, hruns, hprinted, hunresolved, hreads, -⟩ :=
    runs_are_independent s mixedRequests ⟨[]⟩
  have htwice : (mixedRequests[5]?.bind Request.program?) =
      some (.error ⟨⟨3, 0⟩, .labelAlreadyDefined "b"⟩) := by decide +kernel
  obtain ⟨hfailed, hsame⟩ := hunresolved 5 _ _ rfl htwice
  refine ⟨?_, ?_, ?_, ?_, hfailed, hsame, ?_, ?_⟩
  · rw [hprinted]
    decide +kernel
  · rw [hruns 0 _ rfl rfl]
    decide +kernel
  · rw [hruns 2 _ rfl rfl]
    decide +kernel
  · rw [hruns 3 _ rfl rfl]
    decide +kernel
  · rw [hruns 6 _ rfl rfl]
    decide +kernel
  · rw [hreads]
    decide +kernel

end Stackline
