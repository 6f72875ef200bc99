import Stackline.Proofs.ControlFlow
import Stackline.Proofs.Lines
import Stackline.Proofs.Outcomes
import Stackline.Proofs.Renumbering
import Mathlib.Data.List.InsertIdx

/-! A line without tokens may be put anywhere into a program. All that follows it moves down by one
line, in the text, in the label table and in what errors tell; the machine walks over the new line
and otherwise does what it did. -/
namespace Stackline

/-- The number that line `i` has after a line was put in front of line `n`. -/
def movedDown (n i : Nat) : Nat :=
  if i < n then i else i + 1

theorem movedDown_of_lt {n i : Nat} (h : i < n) : movedDown n i = i :=
  if_pos h

theorem movedDown_of_le {n i : Nat} (h : n ≤ i) : movedDown n i = i + 1 :=
  if_neg (by omega)

theorem countsOn_movedDown (n count : Nat) : CountsOn (movedDown n) n (n + 1) count := by
  intro k _
  rw [movedDown_of_le (by omega)]
  omega

def withBlank (n : Nat) (lines : List Line) : List Line :=
  (lines.insertIdx n []).map (Line.renumber (movedDown n))

namespace Line

theorem ofChars_blank {cs gap tail : List Char} (hcut : cs = gap ++ tail) (hgap : IsGap gap)
    (htail : IsTail tail) (hline : '\n' ∉ cs) (n : Nat) :
    ofChars n (Text.chomp (cs ++ ['\n'])) = .ok [] := by
  -- Without its last character the line is still blanks and perhaps a comment.
  have hkept : ∃ gap' tail', Text.chomp (cs ++ ['\n']) = gap' ++ tail' ∧ IsGap gap' ∧
      IsTail tail' := by
    cases Text.chomp_line cs with
    | inl hwhole => exact ⟨gap, tail, hwhole.trans hcut, hgap, htail⟩
    | inr hshort =>
      cases htail with
      | inl hnil =>
        subst hnil
        rw [List.append_nil] at hcut
        subst hcut
        refine ⟨cs.dropLast, [], by rw [hshort.2, List.append_nil], ?_, Or.inl rfl⟩
        exact fun c hc => hgap c (List.dropLast_subset cs hc)
      | inr hcomment =>
        obtain ⟨comment, rfl⟩ := hcomment
        refine ⟨gap, (';' :: comment).dropLast, ?_, hgap, ?_⟩
        · rw [hshort.2, hcut, List.dropLast_append_of_ne_nil (by simp)]
        · cases comment with
          | nil => exact Or.inl rfl
          | cons c comment => exact Or.inr ⟨_, rfl⟩
  have hbody : '\n' ∉ Text.chomp (cs ++ ['\n']) := by
    cases Text.chomp_line cs with
    | inl hwhole => rwa [hwhole]
    | inr hshort =>
      rw [hshort.2]
      exact fun hmem => hline (List.dropLast_subset cs hmem)
  obtain ⟨gap', tail', hcut', hgap', htail'⟩ := hkept
  rw [ofChars_of_line hbody]
  exact readFrom_of_describes (l := ⟨gap', [], tail'⟩)
    (Layout.describes_nil.2 ⟨rfl, hcut', hgap', htail'⟩)

theorem readAll_insertIdx {blank : List Char} (hblank : ∀ n, ofChars n blank = .ok []) {n k : Nat}
    {lines : List (List Char)} {index : Nat} (hn : index + k = n) (hk : k ≤ lines.length) :
    readAll index (lines.insertIdx k blank) =
      renumbered (movedDown n) (fun read => (read.insertIdx k []).map (Line.renumber (movedDown n)))
        (readAll index lines) := by
  induction k generalizing lines index with
  | zero =>
    subst hn
    simp only [List.insertIdx_zero, readAll, hblank, Nat.add_zero]
    rw [readAll_renumber lines (countsOn_movedDown index lines.length)]
    cases readAll index lines <;> rfl
  | succ k ih =>
    cases lines with
    | nil => simp at hk
    | cons line lines =>
      have hline := ofChars_renumber (g := movedDown n) index line
      rw [movedDown_of_lt (by omega)] at hline
      have hn' : index + 1 + k = n := by omega
      have hrest := ih hn' (Nat.le_of_succ_le_succ hk)
      simp only [List.insertIdx_succ_cons, readAll, hrest]
      cases ho : ofChars index line with
      | error e =>
        rw [ho] at hline
        exact congrArg Except.error (Except.error.inj hline)
      | ok tokens =>
        rw [ho] at hline
        have hsame : tokens.renumber (movedDown n) = tokens := (Except.ok.inj hline).symm
        cases readAll (index + 1) lines with
        | error e => rfl
        | ok read => simp [Except.map, hsame]

end Line

namespace Scope

theorem resolveFrom_blank (s : Scope) (index : Nat) (lines : List Line) :
    s.resolveFrom index ([] :: lines) =
      ((s.resolveFrom (index + 1) lines).1, [] :: (s.resolveFrom (index + 1) lines).2) := rfl

theorem resolveFrom_insertIdx (s : Scope) {n k : Nat} {lines : List Line} {index : Nat}
    (hn : index + k = n) (hk : k ≤ lines.length) :
    (s.renumber (movedDown n)).resolveFrom index
        ((lines.insertIdx k []).map (Line.renumber (movedDown n))) =
      (renumbered (movedDown n) (Scope.renumber (movedDown n)) (s.resolveFrom index lines).1,
        ((s.resolveFrom index lines).2.insertIdx k []).map (Line.renumber (movedDown n))) := by
  induction k generalizing s lines index with
  | zero =>
    subst hn
    have hrest := resolveFrom_renumber s lines (countsOn_movedDown index lines.length)
    simp only [List.insertIdx_zero, List.map_cons, Nat.add_zero]
    rw [show Line.renumber (movedDown index) [] = [] from rfl, resolveFrom_blank, hrest]
  | succ k ih =>
    cases lines with
    | nil => simp at hk
    | cons line lines =>
      have hline := resolveLine_renumber (g := movedDown n) s index line
      rw [movedDown_of_lt (by omega)] at hline
      simp only [List.insertIdx_succ_cons, List.map_cons, resolveFrom, hline]
      cases s.resolveLine index line with
      | mk result left =>
        cases result with
        | error e => rfl
        | ok s' =>
          have hn' : index + 1 + k = n := by omega
          have hrest := ih s' hn' (Nat.le_of_succ_le_succ hk)
          simp only [renumbered_ok, hrest, List.insertIdx_succ_cons, List.map_cons]

end Scope

theorem resolve_withBlank {n : Nat} {lines : List Line} (hn : n ≤ lines.length) :
    resolve (withBlank n lines) =
      (renumbered (movedDown n) (Scope.renumber (movedDown n)) (resolve lines).1,
        withBlank n (resolve lines).2) :=
  Scope.resolveFrom_insertIdx {} (Nat.zero_add n) hn

namespace Program

def withBlank (n : Nat) (p : Program) : Program :=
  ⟨(Stackline.withBlank n p.lines.toList).toArray, p.labels.renumber (movedDown n)⟩

variable {n : Nat}

theorem ofLines_withBlank {lines : List Line} (hn : n ≤ lines.length) :
    ofLines (Stackline.withBlank n lines) =
      renumbered (movedDown n) (withBlank n) (ofLines lines) := by
  simp only [ofLines, resolve_withBlank hn]
  cases resolve lines with
  | mk result left => cases result <;> rfl

theorem getElem?_withBlank (p : Program) (i : Nat) :
    (p.withBlank n).lines[movedDown n i]? = p.lines[i]?.map (Line.renumber (movedDown n)) := by
  simp only [withBlank, Stackline.withBlank, List.getElem?_toArray, List.getElem?_map]
  by_cases hi : i < n
  · rw [movedDown_of_lt hi, List.getElem?_insertIdx_of_lt hi, Array.getElem?_toList]
  · rw [movedDown_of_le (by omega), List.getElem?_insertIdx_of_gt (by omega), Nat.add_sub_cancel,
      Array.getElem?_toList]

theorem getElem?_withBlank_self (p : Program) (hn : n ≤ p.lines.size) :
    (p.withBlank n).lines[n]? = some [] := by
  simp [withBlank, Stackline.withBlank, List.getElem?_insertIdx_self, hn, Line.renumber]

end Program

def Status.renumber (g : Nat → Nat) : Status → Status
  | .failed e => .failed (e.renumber g)
  | status => status

def Outcome.renumber (g : Nat → Nat) : Outcome → Outcome
  | .failed e => .failed (e.renumber g)
  | outcome => outcome

namespace Machine

variable {σ : Type}

def movedDown (n : Nat) (m : Machine σ) : Machine σ :=
  { m with pc := Stackline.movedDown n m.pc }

theorem outcome_movedDown (n : Nat) (m : Machine σ) (status : Status) :
    (m.movedDown n).outcome (status.renumber (Stackline.movedDown n)) =
      (m.outcome status).renumber (Stackline.movedDown n) := by
  cases status <;> rfl

variable [Output σ] {p : Program} {n : Nat} {m m' : Machine σ}

theorem step_withBlank {line : Line} {result : Except Error Flow}
    (h : m.step p.labels line = (result, m')) :
    (m.movedDown n).step (p.withBlank n).labels (line.renumber (Stackline.movedDown n)) =
      (renumbered (Stackline.movedDown n) (Flow.renumber (Stackline.movedDown n)) result,
        m'.movedDown n) := by
  have hl := p.labels.leadsAlike_renumber (g := Stackline.movedDown n) result
  have hs := ((step_effect h).renumber hl (Stackline.movedDown n m.pc)).step_eq
  simpa only [movedDown, Program.withBlank, pc_of_step h] using hs

theorem advance_blank (hn : n ≤ p.lines.size) (hpc : m.pc = n) :
    advance (p.withBlank n) m = (.running, { m with pc := n + 1 }) := by
  refine advance_eq_running.2 ⟨[], .next, m, ?_, rfl, ?_⟩
  · rw [hpc, p.getElem?_withBlank_self hn]
  · rw [← hpc]
    rfl

/-- Behind a line the machine comes to where the next one is now, perhaps by way of the empty
one. -/
theorem run_to_next (hn : n ≤ p.lines.size) (m : Machine σ) (i : Nat) :
    ∃ more, run (p.withBlank n) more { m with pc := Stackline.movedDown n i + 1 } =
      (.running, { m with pc := Stackline.movedDown n (i + 1) }) := by
  by_cases hi : i + 1 = n
  · refine ⟨1, ?_⟩
    rw [movedDown_of_lt (by omega), movedDown_of_le (by omega), hi]
    simp only [run, advance_blank hn (show ({ m with pc := n } : Machine σ).pc = n from rfl)]
  · refine ⟨0, ?_⟩
    have hsame : Stackline.movedDown n (i + 1) = Stackline.movedDown n i + 1 := by
      simp only [Stackline.movedDown]
      split_ifs <;> omega
    rw [hsame]
    rfl

theorem turn_withBlank (hn : n ≤ p.lines.size) (h : advance p m = (.running, m')) :
    ∃ more, run (p.withBlank n) (more + 1) (m.movedDown n) = (.running, m'.movedDown n) := by
  obtain ⟨line, flow, after, hline, hs, rfl⟩ := advance_eq_running.1 h
  have hturn : advance (p.withBlank n) (m.movedDown n) =
      (.running, (after.movedDown n).follow (flow.renumber (Stackline.movedDown n))) := by
    refine advance_eq_running.2 ⟨_, _, _, ?_, step_withBlank hs, rfl⟩
    rw [movedDown, p.getElem?_withBlank, hline]
    rfl
  cases flow with
  | next =>
    obtain ⟨more, hmore⟩ := run_to_next hn after after.pc
    refine ⟨more, ?_⟩
    simp only [run, hturn]
    exact hmore
  | jump target =>
    refine ⟨0, ?_⟩
    simp only [run, hturn]
    rfl

theorem stop_withBlank {status : Status} (h : advance p m = (status, m'))
    (hs : status ≠ .running) :
    Ends (p.withBlank n) (m.movedDown n) (status.renumber (Stackline.movedDown n))
      (m'.movedDown n) := by
  have hline : (p.withBlank n).lines[(m.movedDown n).pc]? =
      p.lines[m.pc]?.map (Line.renumber (Stackline.movedDown n)) := p.getElem?_withBlank m.pc
  cases status with
  | running => exact absurd rfl hs
  | finished =>
    obtain ⟨hnone, rfl⟩ := advance_eq_finished.1 h
    have hend := advance_eq_finished.2 ⟨hline.trans (by rw [hnone]; rfl), rfl⟩
    exact .of_advance hend (by simp [Status.renumber])
  | failed e =>
    obtain ⟨line, hsome, hstep⟩ := advance_eq_failed.1 h
    have hend := advance_eq_failed.2 ⟨_, hline.trans (by rw [hsome]; rfl), step_withBlank hstep⟩
    exact .of_advance hend (by simp [Status.renumber])

theorem ends_withBlank (hn : n ≤ p.lines.size) (output : σ) {status' : Status} :
    Ends (p.withBlank n) { output } status' m' ↔
      ∃ status m, Ends p { output } status m ∧
        status' = status.renumber (Stackline.movedDown n) ∧ m' = m.movedDown n := by
  have hstart : Reaches (p.withBlank n) { output } (movedDown n { output }) := by
    by_cases h0 : n = 0
    · refine ⟨1, ?_⟩
      subst h0
      simp only [run, advance_blank hn (show ({ output } : Machine σ).pc = 0 from rfl)]
      rfl
    · have hsame : movedDown n { output } = ({ output } : Machine σ) := by
        simp only [movedDown, movedDown_of_lt (Nat.pos_of_ne_zero h0)]
      rw [hsame]
      exact .refl _ _
  rw [hstart.ends_iff]
  exact ends_simulated (fun _ _ h => turn_withBlank hn h) (fun _ _ _ h hs => stop_withBlank h hs)

end Machine

def WholeLines (text : String) : Prop :=
  text = "" ∨ ∃ front, text = front ++ "\n"

structure IsBlankLine (text : String) : Prop where
  oneLine : '\n' ∉ text.toList
  empty : ∃ gap tail, text.toList = gap ++ tail ∧ IsGap gap ∧ IsTail tail

section Inserted

variable {above blank below : String}

theorem wholeLines_iff {text : String} :
    WholeLines text ↔ text.toList = [] ∨ ∃ front, text.toList = front ++ ['\n'] := by
  constructor
  · intro h
    cases h with
    | inl hempty => exact Or.inl (by simp [hempty])
    | inr hline =>
      obtain ⟨front, rfl⟩ := hline
      exact Or.inr ⟨front.toList, by simp⟩
  · intro h
    cases h with
    | inl hnil => exact Or.inl (String.toList_eq_nil_iff.1 hnil)
    | inr hline =>
      obtain ⟨front, hfront⟩ := hline
      refine Or.inr ⟨String.ofList front, String.toList_inj.1 ?_⟩
      simp [hfront]

theorem WholeLines.lines_append (h : WholeLines above) (rest : List Char) :
    Text.lines (above.toList ++ rest) = Text.lines above.toList ++ Text.lines rest :=
  Text.lines_append (wholeLines_iff.1 h)

theorem insertIdx_length_append (front back : List (List Char)) (line : List Char) :
    (front ++ back).insertIdx front.length line = front ++ line :: back := by
  induction front with
  | nil => simp
  | cons s front ih => simp [List.insertIdx_succ_cons, ih]

theorem lines_inserted (habove : WholeLines above) (hblank : '\n' ∉ blank.toList) :
    Text.lines (above ++ blank ++ "\n" ++ below).toList =
      (Text.lines (above ++ below).toList).insertIdx (Text.lines above.toList).length
        (Text.chomp (blank.toList ++ ['\n'])) := by
  have hlong : (above ++ blank ++ "\n" ++ below).toList =
      above.toList ++ (blank.toList ++ ['\n'] ++ below.toList) := by simp
  rw [hlong, habove.lines_append, Text.lines_append (Or.inr ⟨_, rfl⟩), Text.lines_of_line hblank,
    String.toList_append, habove.lines_append, insertIdx_length_append]
  rfl

theorem ofText_inserted {n : Nat} (habove : WholeLines above)
    (hn : (Text.lines above.toList).length = n) (hblank : IsBlankLine blank) :
    Program.ofText (above ++ blank ++ "\n" ++ below) =
      renumbered (movedDown n) (Program.withBlank n) (Program.ofText (above ++ below)) := by
  obtain ⟨gap, tail, hcut, hgap, htail⟩ := hblank.empty
  have hle : n ≤ (Text.lines (above ++ below).toList).length := by
    rw [String.toList_append, habove.lines_append, List.length_append]
    omega
  have hread := Line.readAll_insertIdx (Line.ofChars_blank hcut hgap htail hblank.oneLine)
    (Nat.zero_add n) hle
  simp only [Program.ofText, Line.ofText, lines_inserted habove hblank.oneLine, hn, hread]
  cases hr : Line.readAll 0 (Text.lines (above ++ below).toList) with
  | error e => rfl
  | ok lines =>
    rw [← Line.length_readAll hr] at hle
    exact Program.ofLines_withBlank hle

theorem length_lines_le {p : Program} (habove : WholeLines above)
    (h : Program.ofText (above ++ below) = .ok p) :
    (Text.lines above.toList).length ≤ p.lines.size := by
  simp only [Program.ofText] at h
  cases hr : Line.ofText (above ++ below) with
  | error e =>
    rw [hr] at h
    cases h
  | ok lines =>
    rw [hr] at h
    rw [Program.size_lines h, Line.length_readAll hr, String.toList_append, habove.lines_append,
      List.length_append]
    omega

/-- A program does the same with a blank line put in as without it, and ends if it did; an error on
a line below the new one is told one line further down. -/
theorem blank_line_is_inert {σ : Type} [Output σ] (habove : WholeLines above)
    (hblank : IsBlankLine blank) (output left : σ) (outcome : Outcome) :
    TextEnds (above ++ blank ++ "\n" ++ below) output outcome left ↔
      ∃ before, TextEnds (above ++ below) output before left ∧
        outcome = before.renumber (movedDown (Text.lines above.toList).length) := by
  have hlong : Program.ofText (above ++ blank ++ "\n" ++ below) = _ :=
    ofText_inserted habove rfl hblank
  cases ho : Program.ofText (above ++ below) with
  | error e =>
    rw [ho] at hlong
    rw [textEnds_of_error hlong]
    simp only [textEnds_of_error ho]
    constructor
    · intro h
      exact ⟨.failed e, ⟨rfl, h.2⟩, h.1⟩
    · intro h
      obtain ⟨before, ⟨rfl, hleft⟩, houtcome⟩ := h
      exact ⟨houtcome, hleft⟩
  | ok p =>
    rw [ho] at hlong
    rw [textEnds_of_ok hlong]
    simp only [textEnds_of_ok ho, Machine.ends_withBlank (length_lines_le habove ho)]
    constructor
    · intro h
      obtain ⟨_, _, ⟨status, m, hend, rfl, rfl⟩, houtcome, hleft⟩ := h
      exact ⟨_, ⟨status, m, hend, rfl, hleft⟩,
        houtcome.trans (Machine.outcome_movedDown _ m status)⟩
    · intro h
      obtain ⟨_, ⟨status, m, hend, rfl, hleft⟩, houtcome⟩ := h
      refine ⟨_, _, ⟨status, m, hend, rfl, rfl⟩, ?_, hleft⟩
      exact houtcome.trans (Machine.outcome_movedDown _ m status).symm

end Inserted

/-- A jump over the place of the new line, once with an error below it, and once with a good end
that has a title, something on the stack and something printed. -/
theorem blank_line_is_inert_above_underflow :
    (TextEnds "push 1\npush 1\njeq end\n:end\nprint\n" ({} : PrintedValues)
          (.failed ⟨⟨4, 0⟩, .stackUnderflow⟩) {} ∧
        TextEnds ("push 1\npush 1\njeq end\n" ++ " \t; note" ++ "\n" ++ ":end\nprint\n")
          ({} : PrintedValues) (.failed ⟨⟨5, 0⟩, .stackUnderflow⟩) {}) ∧
      TextEnds ".title \"t\"\npush 4\npush 1\npush 1\njeq end\nprint\n:end\npush 2\nprint\n"
          ({} : PrintedValues) (.finished ⟨some "t", .ofList [.int 4], 6⟩) ⟨#[.int 2]⟩ ∧
      TextEnds (".title \"t\"\npush 4\npush 1\npush 1\njeq end\n" ++ " \t; note" ++ "\n" ++
            "print\n:end\npush 2\nprint\n")
          ({} : PrintedValues) (.finished ⟨some "t", .ofList [.int 4], 6⟩) ⟨#[.int 2]⟩ := by
  have hblank : IsBlankLine " \t; note" :=
    ⟨by decide, [' ', '\t'], "; note".toList, rfl, by simp [IsGap], Or.inr ⟨" note".toList, rfl⟩⟩
  have hfailing : WholeLines "push 1\npush 1\njeq end\n" := Or.inr ⟨"push 1\npush 1\njeq end", rfl⟩
  have hfailed : TextEnds ("push 1\npush 1\njeq end\n" ++ ":end\nprint\n") ({} : PrintedValues)
      (.failed ⟨⟨4, 0⟩, .stackUnderflow⟩) {} := ⟨by simp, 5, by decide +kernel⟩
  have htitled : WholeLines ".title \"t\"\npush 4\npush 1\npush 1\njeq end\n" :=
    Or.inr ⟨".title \"t\"\npush 4\npush 1\npush 1\njeq end", rfl⟩
  have hfinished : TextEnds (".title \"t\"\npush 4\npush 1\npush 1\njeq end\n" ++
      "print\n:end\npush 2\nprint\n") ({} : PrintedValues)
      (.finished ⟨some "t", .ofList [.int 4], 6⟩) ⟨#[.int 2]⟩ := ⟨by simp, 9, by decide +kernel⟩
  exact ⟨⟨hfailed, (blank_line_is_inert hfailing hblank _ _ _).2 ⟨_, hfailed, by decide +kernel⟩⟩,
    hfinished, (blank_line_is_inert htitled hblank _ _ _).2 ⟨_, hfinished, by decide +kernel⟩⟩

end Stackline
