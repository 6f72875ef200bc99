import Stackline.Proofs.BlankLines
import Stackline.Proofs.Positions

/-! Texts as wholes. A text behind another is read as it is by itself, further down; and it makes no
difference whether a line ends with a newline, with a carriage return before it or, if it is the
last one, without either. -/
namespace Stackline

section Joining

variable {above below : String}

namespace Line

theorem readAll_below (n : Nat) (lines : List (List Char)) :
    readAll n lines = renumbered (· + n) (List.map (Line.renumber (· + n))) (readAll 0 lines) := by
  apply readAll_renumber
  intro k _
  rw [Nat.zero_add, Nat.add_comm]

theorem ofText_append (habove : WholeLines above) (below : String) :
    ofText (above ++ below) =
      match ofText above with
      | .error e => .error e
      | .ok la =>
        renumbered (· + la.length) (fun lb => la ++ lb.map (Line.renumber (· + la.length)))
          (ofText below) := by
  simp only [ofText, String.toList_append, habove.lines_append, readAll_append, Nat.zero_add]
  cases ha : readAll 0 (Text.lines above.toList) with
  | error e => rfl
  | ok la =>
    simp only [← length_readAll ha]
    rw [readAll_below]
    cases readAll 0 (Text.lines below.toList) <;> rfl

end Line

/-- Whole lines and a text behind them are read one after the other. An error above is the error of
both; an error below is told, and lines below are found, as many lines further down as there are
above. Every token is on the line that it tells, and the first line that cannot be read decides the
error. -/
theorem reading_joins_texts (habove : WholeLines above) :
    (∀ e, Line.ofText above = .error e → Line.ofText (above ++ below) = .error e) ∧
    (∀ la e, Line.ofText above = .ok la → Line.ofText below = .error e →
      Line.ofText (above ++ below) = .error (e.renumber (· + la.length))) ∧
    (∀ la lb, Line.ofText above = .ok la → Line.ofText below = .ok lb →
      Line.ofText (above ++ below) = .ok (la ++ lb.map (Line.renumber (· + la.length)))) ∧
    (∀ text lines, Line.ofText text = .ok lines →
      ∀ (i : Nat) (line : Line), lines[i]? = some line → ∀ t ∈ line, t.position.line = i) ∧
    ∀ text e, Line.ofText text = .error e ↔
      ∃ front cs back read, Text.lines text.toList = front ++ cs :: back ∧
        Line.readAll 0 front = .ok read ∧ Line.ofChars front.length cs = .error e := by
  have happend := Line.ofText_append habove below
  refine ⟨?_, ?_, ?_, ?_, ?_⟩
  · intro e ha
    rw [happend, ha]
  · intro la e ha hb
    rw [happend, ha, hb]
    rfl
  · intro la lb ha hb
    rw [happend, ha, hb]
    rfl
  · intro text lines h i line hi t ht
    exact (Line.isIn_of_ofText h hi (List.mem_map_of_mem ht)).1
  · intro text e
    rw [Line.ofText, Line.readAll_eq_error]
    simp only [Nat.zero_add]

theorem reading_joins_label_and_mistake :
    WholeLines "push 1\n:a\r\n" ∧
      Line.ofText "push 1\n:a\r\n" =
        .ok [[⟨.word, "push", ⟨0, 0⟩⟩, ⟨.number, "1", ⟨0, 5⟩⟩], [⟨.label, "a", ⟨1, 0⟩⟩]] ∧
      Line.ofText "j a\n\"" = .error ⟨⟨1, 0⟩, .unterminatedString⟩ ∧
      Line.ofText ("push 1\n:a\r\n" ++ "j a\n\"") = .error ⟨⟨3, 0⟩, .unterminatedString⟩ := by
  have habove : WholeLines "push 1\n:a\r\n" := Or.inr ⟨"push 1\n:a\r", rfl⟩
  have ha : Line.ofText "push 1\n:a\r\n" =
      .ok [[⟨.word, "push", ⟨0, 0⟩⟩, ⟨.number, "1", ⟨0, 5⟩⟩], [⟨.label, "a", ⟨1, 0⟩⟩]] := by
    decide +kernel
  have hb : Line.ofText "j a\n\"" = .error ⟨⟨1, 0⟩, .unterminatedString⟩ := by decide +kernel
  exact ⟨habove, ha, hb, (reading_joins_texts habove).2.1 _ _ ha hb⟩

end Joining

section Endings

namespace Text

/-- The characters with a carriage return in front of each newline whose index is chosen. -/
def withReturns (chosen : Nat → Bool) (cs : List Char) : List Char :=
  (cs.mapIdx fun i c => if c = '\n' ∧ chosen i = true then ['\r', '\n'] else [c]).flatten

theorem withReturns_cons (chosen : Nat → Bool) (c : Char) (cs : List Char) :
    withReturns chosen (c :: cs) =
      (if c = '\n' ∧ chosen 0 = true then ['\r', '\n'] else [c]) ++
        withReturns (fun i => chosen (i + 1)) cs := by
  simp only [withReturns, List.mapIdx_cons, List.flatten_cons]

theorem lines_withReturns (chosen : Nat → Bool) {cs : List Char} (h : '\r' ∉ cs) :
    lines (withReturns chosen cs) = lines cs := by
  induction cs generalizing chosen with
  | nil => rfl
  | cons c cs ih =>
    simp only [List.mem_cons, not_or] at h
    have hrest := ih (fun i => chosen (i + 1)) h.2
    rw [withReturns_cons]
    by_cases hc : c = '\n'
    · subst hc
      cases chosen 0 with
      | true => simp [lines_return_newline, lines_newline, hrest]
      | false => simp [lines_newline, hrest]
    · simp [hc, lines_cons hc (Ne.symm h.1), hrest]

/-- The last line may end with what would be an empty line by itself. -/
theorem lines_append_ending {cs ending : List Char} (hreturn : '\r' ∉ cs)
    (hopen : ¬(cs = [] ∨ ∃ front, cs = front ++ ['\n'])) (hending : lines ending = [[]]) :
    lines (cs ++ ending) = lines cs := by
  induction cs with
  | nil => exact absurd (Or.inl rfl) hopen
  | cons c cs ih =>
    simp only [List.mem_cons, not_or] at hreturn
    cases cs with
    | nil =>
      have hc : c ≠ '\n' := by
        intro heq
        exact hopen (Or.inr ⟨[], by rw [heq]; rfl⟩)
      rw [List.singleton_append, lines_cons hc (Ne.symm hreturn.1), hending,
        lines_cons hc (Ne.symm hreturn.1)]
      simp [attach, hc]
    | cons d cs =>
      have hrest : lines (d :: cs ++ ending) = lines (d :: cs) := by
        apply ih hreturn.2
        intro hwhole
        cases hwhole with
        | inl hnil => cases hnil
        | inr hline =>
          obtain ⟨front, hfront⟩ := hline
          exact hopen (Or.inr ⟨c :: front, by rw [hfront]; rfl⟩)
      by_cases hc : c = '\n'
      · subst hc
        rw [List.cons_append, lines_newline, lines_newline, hrest]
      · rw [List.cons_append, lines_cons hc (Ne.symm hreturn.1), lines_cons hc (Ne.symm hreturn.1),
          hrest]

end Text

/-- A text without carriage returns is read alike with carriage returns before any of its newlines,
and, if its last line does not end with a newline, with a newline or both at its end. -/
theorem line_endings_do_not_matter {text : String} (h : '\r' ∉ text.toList) :
    (∀ chosen : Nat → Bool,
      Line.ofText (String.ofList (Text.withReturns chosen text.toList)) = Line.ofText text) ∧
    (¬WholeLines text →
      Line.ofText (text ++ "\n") = Line.ofText text ∧
        Line.ofText (text ++ "\r\n") = Line.ofText text) := by
  have hending {ending : String} (hopen : ¬WholeLines text)
      (hlines : Text.lines ending.toList = [[]]) :
      Line.ofText (text ++ ending) = Line.ofText text := by
    rw [Line.ofText, String.toList_append,
      Text.lines_append_ending h (wholeLines_iff.not.1 hopen) hlines, Line.ofText]
  refine ⟨?_, fun hopen => ⟨hending hopen rfl, hending hopen rfl⟩⟩
  intro chosen
  rw [Line.ofText, String.toList_ofList, Text.lines_withReturns chosen h, Line.ofText]

def brokenOff : String :=
  "push \"a\\\nprint"

theorem line_endings_do_not_matter_in_brokenOff :
    '\r' ∉ brokenOff.toList ∧ ¬WholeLines brokenOff ∧
      String.ofList (Text.withReturns (fun i => i == 8) brokenOff.toList) =
        "push \"a\\\r\nprint" ∧
      Line.ofText "push \"a\\\r\nprint" = .error ⟨⟨0, 5⟩, .unterminatedString⟩ ∧
      Line.ofText (brokenOff ++ "\r\n") = .error ⟨⟨0, 5⟩, .unterminatedString⟩ := by
  have hreturn : '\r' ∉ brokenOff.toList := by decide
  have hopen : ¬WholeLines brokenOff := by
    rw [wholeLines_iff, ← List.getLast?_eq_some_iff]
    decide
  have hread : Line.ofText brokenOff = .error ⟨⟨0, 5⟩, .unterminatedString⟩ := by decide +kernel
  obtain ⟨hchosen, hending⟩ := line_endings_do_not_matter hreturn
  exact ⟨hreturn, hopen, rfl, (hchosen fun i => i == 8).trans hread,
    (hending hopen).2.trans hread⟩

end Endings
end Stackline
