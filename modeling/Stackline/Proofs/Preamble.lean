import Stackline.Proofs.ControlFlow
import Stackline.Proofs.Outcomes

/-! What comes before the first line of content. The machine walks down these lines once and does
nothing there but take in titles; no jump leads back to them, and none of the titles that are given
further down is ever taken in. -/
namespace Stackline

namespace Line

/-- The line starts with a label, or with a word other than the one for declarations. -/
def isContent (line : Line) : Bool :=
  line.head?.any fun t => t.hasKind .label || (t.hasKind .word && t.literal != declarationWord)

def isDirective (line : Line) : Bool :=
  line.head?.any (·.hasKind .directive)

def title? : Line → Option String
  | head :: arg :: _ =>
    if head.isExactly .directive Directive.title.name then some arg.literal else none
  | _ => none

theorem title?_eq_none {head : Token} (h : head.kind ≠ .directive) (args : List Token) :
    title? (head :: args) = none := by
  cases args <;> simp [title?, Token.isExactly, h]

theorem title?_of_isContent {line : Line} (h : line.isContent = true) : line.title? = none := by
  cases line with
  | nil => rfl
  | cons head args =>
    refine title?_eq_none ?_ args
    intro hk
    simp [isContent, Token.hasKind, hk] at h

end Line

def lastTitle? (lines : List Line) : Option String :=
  (lines.filterMap Line.title?).getLast?

theorem lastTitle?_append_singleton (lines : List Line) (line : Line) :
    lastTitle? (lines ++ [line]) = line.title?.or (lastTitle? lines) := by
  cases ht : line.title? <;> simp [lastTitle?, ht]

theorem Directive.name_of_ofName? {name : String} {d : Directive}
    (h : Directive.ofName? name = some d) : d.name = name := by
  simpa using List.find?_some h

namespace Program

variable {p : Program} {i : Nat} {line : Line}

/-- Where the content starts, if there is any; otherwise behind the last line. -/
def contentStart (p : Program) : Nat :=
  p.lines.toList.findIdx Line.isContent

theorem contentStart_le (hline : p.lines[i]? = some line) (h : line.isContent = true) :
    p.contentStart ≤ i := by
  rw [← Array.getElem?_toList] at hline
  obtain ⟨hlt, rfl⟩ := List.getElem?_eq_some_iff.1 hline
  by_contra hbefore
  have hnot := List.not_of_lt_findIdx (Nat.lt_of_not_le hbefore)
  rw [h] at hnot
  cases hnot

theorem isContent_at_contentStart (hline : p.lines[p.contentStart]? = some line) :
    line.isContent = true := by
  rw [← Array.getElem?_toList] at hline
  obtain ⟨hlt, rfl⟩ := List.getElem?_eq_some_iff.1 hline
  exact List.findIdx_getElem

theorem take_succ (hline : p.lines[i]? = some line) :
    p.lines.toList.take (i + 1) = p.lines.toList.take i ++ [line] := by
  rw [List.take_add_one, Array.getElem?_toList, hline]
  rfl

end Program

namespace Machine

variable {σ : Type} [Output σ] {p : Program} {m m' : Machine σ}

section Step

variable {labels : Labels} {line : Line} {result : Except Error Flow}

theorem afterContent_of_step (h : m.step labels line = (result, m')) :
    m'.afterContent = (m.afterContent || line.isContent) := by
  cases step_effect h with
  | blank => simp [Line.isContent]
  | declaration hk hw => simp [Line.isContent, Token.hasKind, hk, hw]
  | label hk => simp [Line.isContent, Token.hasKind, hk]
  | titled hk hearly hd hs => simp [Line.isContent, Token.hasKind, hk]
  | late hk hlate => simp [hlate]
  | unknownDirective hk hearly hd => simp [Line.isContent, Token.hasKind, hk]
  | unfitDirective hk hearly hd hs => simp [Line.isContent, Token.hasKind, hk]
  | unknownInstruction hk hw hi => simp [Line.isContent, Token.hasKind, hk, hw]
  | unfitInstruction hk hw hi hs => simp [Line.isContent, Token.hasKind, hk, hw]
  | executed hk hw hi hs he => simp [Line.isContent, Token.hasKind, hk, hw]
  | stray hk => simp [Line.isContent, Token.hasKind, hk]

theorem title_of_step {flow : Flow} (h : m.step labels line = (.ok flow, m')) :
    m'.title = line.title?.or m.title := by
  cases step_effect h with
  | blank => rfl
  | declaration hk hw => simp [Line.title?_eq_none, hk]
  | label hk => simp [Line.title?_eq_none, hk]
  | titled hk hearly hd hs =>
    have hname := Directive.name_of_ofName? hd
    simp [Line.title?, Token.isExactly, hk, hname]
  | executed hk hw hi hs he => simp [Line.title?_eq_none, hk]

theorem title_of_late_step (h : m.step labels line = (result, m')) (hlate : m.afterContent = true) :
    m'.title = m.title := by
  cases step_effect h with
  | titled hk hearly hd hs =>
    rw [hearly] at hlate
    cases hlate
  | _ => rfl

theorem unchanged_of_step (h : m.step labels line = (result, m')) (hf : m'.afterContent = false) :
    m' = { m with title := m'.title } ∧ ∀ target, result ≠ .ok (.jump target) := by
  cases step_effect h with
  | label hk => cases hf
  | unknownInstruction hk hw hi => cases hf
  | unfitInstruction hk hw hi hs => cases hf
  | executed hk hw hi hs he => cases hf
  | _ => exact ⟨rfl, by simp⟩

theorem directive_fails_late (labels : Labels) (hd : line.isDirective = true)
    (hlate : m.afterContent = true) : ∃ e, m.step labels line = (.error e, m) := by
  cases line with
  | nil => cases hd
  | cons head args =>
    have hk : head.kind = .directive := by simpa [Line.isDirective] using hd
    have hstep : m.StepEffect labels (head :: args) _ m := .late hk hlate
    exact ⟨_, hstep.step_eq⟩

end Step

theorem afterContent_of_run {fuel : Nat} {status : Status} (h : run p fuel m = (status, m'))
    (hm : m.afterContent = true) : m'.afterContent = true :=
  run_invariant (I := fun m => m.afterContent = true)
    (fun _ _ _ _ hi _ hs => by rw [afterContent_of_step hs, hi, Bool.true_or])
    (fun _ _ hi => by rwa [afterContent_follow]) h hm

theorem unchanged_of_advance {status : Status} (h : advance p m = (status, m'))
    (hf : m'.afterContent = false) :
    (status = .running → m'.pc = m.pc + 1) ∧ m'.steps = m.steps ∧ m'.stack = m.stack ∧
      m'.output = m.output := by
  cases status with
  | running =>
    obtain ⟨line, flow, after, -, hs, rfl⟩ := advance_eq_running.1 h
    rw [afterContent_follow] at hf
    obtain ⟨hsame, hnojump⟩ := unchanged_of_step hs hf
    cases flow with
    | jump target => exact absurd rfl (hnojump target)
    | next =>
      rw [hsame]
      simp [follow]
  | finished =>
    obtain ⟨-, rfl⟩ := advance_eq_finished.1 h
    simp
  | failed e =>
    obtain ⟨line, -, hs⟩ := advance_eq_failed.1 h
    rw [(unchanged_of_step hs hf).1]
    simp

theorem unchanged_of_run {fuel : Nat} {status : Status} (h : run p fuel m = (status, m'))
    (hf : m'.afterContent = false) :
    (status = .running → m'.pc = m.pc + fuel) ∧ m'.steps = m.steps ∧ m'.stack = m.stack ∧
      m'.output = m.output := by
  induction fuel generalizing m with
  | zero =>
    cases h
    simp
  | succ fuel ih =>
    cases run_succ.1 h with
    | inl hmore =>
      obtain ⟨m₁, ha, hr⟩ := hmore
      -- What is noticed by none of the turns is not noticed by the first.
      have hearly : m₁.afterContent = false := by
        rw [← Bool.not_eq_true]
        intro hlate
        rw [afterContent_of_run hr hlate] at hf
        cases hf
      obtain ⟨hpc₁, hsteps₁, hstack₁, hout₁⟩ := unchanged_of_advance ha hearly
      obtain ⟨hpc, hsteps, hstack, hout⟩ := ih hr
      refine ⟨?_, hsteps.trans hsteps₁, hstack.trans hstack₁, hout.trans hout₁⟩
      intro hrunning
      rw [hpc hrunning, hpc₁ rfl]
      omega
    | inr hlast =>
      exact ⟨fun hrunning => absurd hrunning hlast.1, (unchanged_of_advance hlast.2 hf).2⟩

/-- The pointer is not behind the start of the content before that is noticed, and not in front of it
afterwards; and the title is the last one given in front of both. -/
structure InOrder (p : Program) (m : Machine σ) : Prop where
  early : m.afterContent = false → m.pc ≤ p.contentStart
  late : m.afterContent = true → p.contentStart ≤ m.pc
  title : m.title = lastTitle? (p.lines.toList.take (min m.pc p.contentStart))

section InOrder

variable {line : Line}

theorem InOrder.follow_content (h : m.InOrder p) {flow : Flow} (hline : p.lines[m.pc]? = some line)
    (hs : m.step p.labels line = (.ok flow, m')) (hc : line.isContent = true)
    (hnext : p.contentStart ≤ (m'.follow flow).pc) : (m'.follow flow).InOrder p := by
  have hstart := Program.contentStart_le hline hc
  have hflag : m'.afterContent = true := by rw [afterContent_of_step hs, hc, Bool.or_true]
  have htitle : m'.title = m.title := by
    rw [title_of_step hs, Line.title?_of_isContent hc, Option.none_or]
  refine ⟨by simp [hflag], fun _ => hnext, ?_⟩
  rw [title_follow, htitle, h.title, Nat.min_eq_right hstart, Nat.min_eq_right hnext]

theorem InOrder.follow_other (h : m.InOrder p) (hline : p.lines[m.pc]? = some line)
    (hs : m.step p.labels line = (.ok .next, m')) (hc : line.isContent = false) :
    (m'.follow .next).InOrder p := by
  have hpc : (m'.follow .next).pc = m.pc + 1 := congrArg (· + 1) (pc_of_step hs)
  have hflag : m'.afterContent = m.afterContent := by rw [afterContent_of_step hs, hc, Bool.or_false]
  cases hm : m.afterContent with
  | true =>
    have hge := h.late hm
    refine ⟨by simp [hflag, hm], fun _ => by omega, ?_⟩
    rw [title_follow, title_of_late_step hs hm, h.title, hpc, Nat.min_eq_right hge,
      Nat.min_eq_right (by omega)]
  | false =>
    have hle := h.early hm
    -- The line at the start of the content is content, and this one is not.
    have hne : m.pc ≠ p.contentStart := by
      intro heq
      rw [heq] at hline
      rw [Program.isContent_at_contentStart hline] at hc
      cases hc
    refine ⟨fun _ => by omega, by simp [hflag, hm], ?_⟩
    rw [title_follow, title_of_step hs, h.title, hpc, Nat.min_eq_left hle,
      Nat.min_eq_left (by omega), Program.take_succ hline, lastTitle?_append_singleton]

theorem isContent_of_jump {labels : Labels} {target : Nat}
    (h : m.step labels line = (.ok (.jump target), m')) : line.isContent = true := by
  obtain ⟨c, head, arg, rest, rfl, -, -⟩ := step_jump h
  obtain ⟨hk, hw⟩ := word_of_jump h
  simp [Line.isContent, Token.hasKind, hk, hw]

theorem contentStart_le_of_jump {lines : List Line} (hp : Program.ofLines lines = .ok p)
    {target : Nat} (hs : m.step p.labels line = (.ok (.jump target), m')) :
    p.contentStart ≤ target := by
  obtain ⟨c, head, arg, rest, -, -, ht⟩ := step_jump hs
  -- A jump lands on a label, and labels are content.
  obtain ⟨-, ⟨t, hk, -, -, hline⟩, -⟩ := Program.label_at hp ht
  exact Program.contentStart_le hline (by simp [Line.isContent, Token.hasKind, hk])

end InOrder

theorem InOrder.advance {lines : List Line} (hp : Program.ofLines lines = .ok p) (h : m.InOrder p)
    (ha : advance p m = (.running, m')) : m'.InOrder p := by
  obtain ⟨line, flow, after, hline, hs, rfl⟩ := advance_eq_running.1 ha
  cases flow with
  | jump target =>
    exact h.follow_content hline hs (isContent_of_jump hs) (contentStart_le_of_jump hp hs)
  | next =>
    cases hc : line.isContent with
    | false => exact h.follow_other hline hs hc
    | true =>
      have hnext : p.contentStart ≤ (after.follow .next).pc := by
        have hstart := Program.contentStart_le hline hc
        rw [← pc_of_step hs] at hstart
        exact Nat.le_succ_of_le hstart
      exact h.follow_content hline hs hc hnext

theorem inOrder_of_reaches {lines : List Line} (hp : Program.ofLines lines = .ok p) {output : σ}
    (hr : Reaches p { output } m) : m.InOrder p := by
  refine hr.invariant (fun _ _ hi ha => hi.advance hp ha) ⟨?_, ?_, ?_⟩
  · intro _
    exact Nat.zero_le _
  · intro hlate
    cases hlate
  · simp [lastTitle?]

theorem no_late_directive {lines : List Line} (hp : Program.ofLines lines = .ok p) {output : σ}
    {line : Line} (hend : Ends p { output } .finished m') (hr : Reaches p { output } m)
    (hline : p.lines[m.pc]? = some line) (hlt : p.contentStart < m.pc) :
    line.isDirective = false := by
  have horder := inOrder_of_reaches hp hr
  have hlate : m.afterContent = true := by
    rw [← Bool.not_eq_false]
    intro hearly
    have hle := horder.early hearly
    omega
  rw [← Bool.not_eq_true]
  intro hd
  obtain ⟨e, hs⟩ := directive_fails_late p.labels hd hlate
  have hfails : Ends p m (.failed e) m :=
    .of_advance (advance_eq_failed.2 ⟨line, hline, hs⟩) (by simp)
  cases (Ends.unique (hr.ends_iff.1 hend) hfails).1

theorem title_of_finished {lines : List Line} (hp : Program.ofLines lines = .ok p) {output : σ}
    {fuel : Nat} (h : run p fuel { output } = (.finished, m)) :
    m.title = lastTitle? (p.lines.toList.take p.contentStart) := by
  obtain ⟨hr, hnone⟩ := run_finished h
  have hsize := Array.getElem?_eq_none_iff.1 hnone
  have hstart : p.contentStart ≤ p.lines.size := List.findIdx_le_length
  rw [(inOrder_of_reaches hp hr).title, Nat.min_eq_right (Nat.le_trans hstart hsize)]

end Machine

/-- Content is noticed once and for all; until then the machine has walked down line by line and has
done nothing but take in titles, and afterwards it takes in none. So the title of a program that ends
well is the last one given in front of its content, and no directive behind that was executed. -/
theorem directives_precede_content {σ : Type} [Output σ] {lines : List Line} {p : Program}
    (hp : Program.ofLines lines = .ok p) (output : σ) :
    (∀ m fuel status m', Machine.Reaches p { output } m → Machine.run p fuel m = (status, m') →
      m.afterContent = true → m'.afterContent = true) ∧
    (∀ fuel status m, Machine.run p fuel { output } = (status, m) → m.afterContent = false →
      (status = .running → m.pc = fuel) ∧ m.steps = 0 ∧ m.stack = .empty ∧ m.output = output) ∧
    (∀ m line result m', Machine.Reaches p { output } m → p.lines[m.pc]? = some line →
      m.step p.labels line = (result, m') → m'.title ≠ m.title → m.afterContent = false) ∧
    ∀ fuel report left, runLines fuel lines output = (.finished report, left) →
      report.title = lastTitle? (p.lines.toList.take p.contentStart) ∧
      ∀ m line, Machine.Reaches p { output } m → p.lines[m.pc]? = some line →
        p.contentStart < m.pc → line.isDirective = false := by
  refine ⟨?_, ?_, ?_, ?_⟩
  · intro m fuel status m' _ hrun hm
    exact Machine.afterContent_of_run hrun hm
  · intro fuel status m hrun hearly
    have hsame := Machine.unchanged_of_run hrun hearly
    rwa [Nat.zero_add] at hsame
  · intro m line result m' _ _ hs hne
    rw [← Bool.not_eq_true]
    intro hlate
    exact hne (Machine.title_of_late_step hs hlate)
  · intro fuel report left hrun
    rw [runLines_of_ofLines hp, Program.run_eq_finished] at hrun
    obtain ⟨m', hrun, rfl, -⟩ := hrun
    refine ⟨Machine.title_of_finished hp hrun, ?_⟩
    intro m line hr hline hlt
    exact Machine.no_late_directive hp ⟨by simp, fuel, hrun⟩ hr hline hlt

def retitled : List Line :=
  [[⟨.directive, "title", ⟨0, 0⟩⟩, ⟨.string, "one", ⟨0, 7⟩⟩],
    [⟨.word, "alias", ⟨1, 0⟩⟩, ⟨.word, "a", ⟨1, 6⟩⟩, ⟨.number, "1", ⟨1, 8⟩⟩],
    [⟨.directive, "title", ⟨2, 0⟩⟩, ⟨.string, "two", ⟨2, 7⟩⟩],
    [⟨.word, "push", ⟨3, 0⟩⟩, ⟨.number, "1", ⟨3, 5⟩⟩],
    [⟨.word, "dup", ⟨4, 0⟩⟩],
    [⟨.word, "j", ⟨5, 0⟩⟩, ⟨.word, "end", ⟨5, 2⟩⟩],
    [⟨.directive, "title", ⟨6, 0⟩⟩, ⟨.string, "three", ⟨6, 7⟩⟩],
    [⟨.label, "end", ⟨7, 0⟩⟩]]

theorem directives_precede_content_of_retitled :
    ∃ p report, Program.ofLines retitled = .ok p ∧ p.contentStart = 3 ∧
      runLines 8 retitled ({} : PrintedValues) = (.finished report, {}) ∧
      report.title = lastTitle? (p.lines.toList.take 3) ∧
      lastTitle? (p.lines.toList.take 3) = some "two" ∧
      ∀ m line, Machine.Reaches p { output := ({} : PrintedValues) } m →
        p.lines[m.pc]? = some line → 3 < m.pc → line.isDirective = false := by
  have hp : Program.ofLines retitled = .ok ⟨retitled.toArray, [("end", 7)]⟩ := rfl
  have hrun : runLines 8 retitled ({} : PrintedValues) =
      (.finished ⟨some "two", .empty, 3⟩, {}) := rfl
  obtain ⟨-, -, -, hend⟩ := directives_precede_content hp ({} : PrintedValues)
  obtain ⟨htitle, hdirectives⟩ := hend 8 _ _ hrun
  exact ⟨_, _, hp, rfl, hrun, htitle, rfl, hdirectives⟩

end Stackline
