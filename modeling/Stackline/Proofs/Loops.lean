import Stackline.Proofs.ForwardJumps
import Stackline.Proofs.Numerals
import Stackline.Proofs.Operations

/-! Two loops, followed from their text to their end. One counts down and ends because its counter
does; the other doubles a text and jumps back whatever comes of it, so that only the limit ends it.
Each is given by what one round does, and the whole by induction on the rounds that are left. -/
namespace Stackline

open Machine

theorem Program.ofText_source {lines : List Line} (h : ∀ line ∈ lines, line.Lexical) :
    Program.ofText (source lines) = Program.ofLines (lines.mapIdx fun i line => line.placed i 0) := by
  simp only [Program.ofText, Stackline.ofText_source h]

def holding {σ : Type} (v : Value) (pc steps : Nat) (output : σ) : Machine σ :=
  { stack := ⟨[v]⟩, pc, afterContent := true, steps, output }

section Counting

def countingText (n : Nat) : String :=
  "push " ++ n.repr ++ "\n:loop\ndup\nprint\npush 1\nsub\ndup\npush 0\njgt loop\n"

def countingLines (n : Nat) : List Line :=
  [[⟨.word, "push", ⟨0, 0⟩⟩, ⟨.number, n.repr, ⟨0, 5⟩⟩],
    [⟨.label, "loop", ⟨1, 0⟩⟩],
    [⟨.word, "dup", ⟨2, 0⟩⟩],
    [⟨.word, "print", ⟨3, 0⟩⟩],
    [⟨.word, "push", ⟨4, 0⟩⟩, ⟨.number, "1", ⟨4, 5⟩⟩],
    [⟨.word, "sub", ⟨5, 0⟩⟩],
    [⟨.word, "dup", ⟨6, 0⟩⟩],
    [⟨.word, "push", ⟨7, 0⟩⟩, ⟨.number, "0", ⟨7, 5⟩⟩],
    [⟨.word, "jgt", ⟨8, 0⟩⟩, ⟨.word, "loop", ⟨8, 4⟩⟩]]

def counting (n : Nat) : Program :=
  ⟨(countingLines n).toArray, [("loop", 1)]⟩

theorem ofText_countingText (n : Nat) : Program.ofText (countingText n) = .ok (counting n) := by
  have hsource : source (countingLines n) = countingText n := by
    rw [← String.toList_inj]
    simp [source, countingLines, countingText, Line.source, Token.source, List.intercalate]
  have hdigits : ∀ c ∈ Nat.toDigits 10 n, c.isDigit = true :=
    fun c hc => Nat.isDigit_of_mem_toDigits (by decide) (by decide) hc
  have hlexical : ∀ line ∈ countingLines n, line.Lexical := by
    simpa [countingLines, Line.Lexical, Token.Lexical, WordChar] using hdigits
  rw [← hsource, Program.ofText_source hlexical]
  rfl

theorem readInt?_repr {n : Nat} (h : n < 2 ^ 63) :
    Value.readInt? n.repr = some (Int64.ofNat n) := by
  rw [Value.readInt?_eq_some, Int64.toInt_ofNat_of_lt h]
  exact isNumeral_repr n

theorem greater_zero {k : Nat} (h : k < 2 ^ 63) :
    Condition.greater.holds (.int (Int64.ofNat k)) (.int 0) = .ok (decide (0 < k)) := by
  have hiff : (0 : Int64) < Int64.ofNat k ↔ 0 < k := by
    rw [Int64.lt_iff_toInt_lt, Int64.toInt_ofNat_of_lt h, Int64.toInt_zero]
    omega
  simp only [Condition.holds, Value.greater, Value.compare, hiff]

theorem run_counting (n : Nat) (v : Int64) (steps : Nat) (printed : PrintedValues) :
    run (counting n) 7 (holding (.int v) 1 steps printed) =
      (.running,
        { stack := ⟨[.int 0, .int (v - 1), .int (v - 1)]⟩, pc := 8, afterContent := true,
          steps := steps + 6, output := ⟨printed.values.push (.int v)⟩ }) := rfl

theorem ofNat_succ_sub_one (k : Nat) : Int64.ofNat (k + 1) - 1 = Int64.ofNat k :=
  (Int64.ofNat_sub (k + 1) 1 (by omega)).symm

theorem advance_counting {k : Nat} (hk : k < 2 ^ 63) (n steps : Nat) (printed : PrintedValues) :
    advance (counting n)
        { stack := ⟨[.int 0, .int (Int64.ofNat k), .int (Int64.ofNat k)]⟩, pc := 8,
          afterContent := true, steps, output := printed } =
      (.running, holding (.int (Int64.ofNat k)) (if k = 0 then 9 else 1) (steps + 1) printed) := by
  have hinvoked : (Instruction.jump .greater).Invoked ⟨.word, "jgt", ⟨8, 0⟩⟩
      [⟨.word, "loop", ⟨8, 4⟩⟩] := ⟨⟨rfl, rfl⟩, rfl⟩
  have hholds := greater_zero hk
  by_cases hzero : k = 0
  · have hc : Condition.greater.holds (.int (Int64.ofNat k)) (.int 0) = .ok false := by
      rw [hholds, hzero]
      rfl
    rw [if_pos hzero]
    exact advance_eq_running.2 ⟨_, _, _, rfl, step_of_invoked hinvoked (.passed rfl rfl rfl hc), rfl⟩
  · have hc : Condition.greater.holds (.int (Int64.ofNat k)) (.int 0) = .ok true := by
      rw [hholds, decide_eq_true (by omega)]
    rw [if_neg hzero]
    exact advance_eq_running.2 ⟨_, _, _, rfl, step_of_invoked hinvoked (.jumped rfl rfl rfl hc), rfl⟩

theorem reaches_counting {k : Nat} (hk : k < 2 ^ 63) (n steps : Nat) (printed : PrintedValues) :
    Reaches (counting n) (holding (.int (Int64.ofNat (k + 1))) 1 steps printed)
      (holding (.int (Int64.ofNat k)) (if k = 0 then 9 else 1) (steps + 7)
        ⟨printed.values.push (.int (Int64.ofNat (k + 1)))⟩) := by
  refine ⟨7 + 1, ?_⟩
  rw [run_add, run_counting, ofNat_succ_sub_one]
  exact run_succ.2 (Or.inl ⟨_, advance_counting hk n _ _, rfl⟩)

def numbersDown (n : Nat) : List Value :=
  (List.range' 1 n).reverse.map fun k => .int (Int64.ofNat k)

theorem numbersDown_succ (n : Nat) :
    numbersDown (n + 1) = .int (Int64.ofNat (n + 1)) :: numbersDown n := by
  simp [numbersDown, List.range'_concat, Nat.add_comm 1]

theorem ends_counting {k : Nat} (hk : k < 2 ^ 63) (n steps : Nat) (printed : PrintedValues) :
    Ends (counting n) (holding (.int (Int64.ofNat (k + 1))) 1 steps printed) .finished
      (holding (.int 0) 9 (steps + 7 * (k + 1))
        ⟨printed.values ++ (numbersDown (k + 1)).toArray⟩) := by
  -- By the rounds that are left; what was counted and printed before is carried along.
  induction k generalizing steps printed with
  | zero =>
    rw [(reaches_counting hk n steps printed).ends_iff]
    exact .of_advance (advance_eq_finished.2 ⟨rfl, by simp [numbersDown]⟩) (by simp)
  | succ k ih =>
    have hrest := ih (by omega) (steps + 7) ⟨printed.values.push (.int (Int64.ofNat (k + 1 + 1)))⟩
    have hsteps : steps + 7 + 7 * (k + 1) = steps + 7 * (k + 1 + 1) := by omega
    have hprinted : printed.values.push (.int (Int64.ofNat (k + 1 + 1))) ++
        (numbersDown (k + 1)).toArray = printed.values ++ (numbersDown (k + 1 + 1)).toArray := by
      simp [numbersDown_succ (k + 1)]
    rw [hsteps, hprinted] at hrest
    rw [(reaches_counting hk n steps printed).ends_iff, if_neg (by omega)]
    exact hrest

end Counting

/-- For every number from 1 to the largest integer, counting down from it ends well: it prints the
numbers down to 1 in order, leaves a zero, and takes seven steps for each of them and one before. If
a word of 64 bits can hold that many, it can hold the count all the way. -/
theorem counting_down_ends {n : Nat} (hpos : 1 ≤ n) (hmax : n ≤ 2 ^ 63 - 1) :
    TextEnds (countingText n) ({} : PrintedValues)
        (.finished ⟨none, .ofList [.int 0], 7 * n + 1⟩)
        ⟨(numbersDown n).toArray⟩ ∧
      (7 * n + 1 < 2 ^ 64 → ∀ p m, Program.ofText (countingText n) = .ok p →
        Reaches p { output := ({} : PrintedValues) } m → m.steps < 2 ^ 64) := by
  obtain ⟨k, rfl⟩ := Nat.exists_eq_add_of_le' hpos
  have hpush : Token.operand ⟨.number, (k + 1).repr, ⟨0, 5⟩⟩ = .ok (.int (Int64.ofNat (k + 1))) := by
    rw [Token.operand_of_number rfl, readInt?_repr (by omega)]
    rfl
  have hfirst : advance (counting (k + 1)) { output := ({} : PrintedValues) } =
      (.running, holding (.int (Int64.ofNat (k + 1))) 1 1 {}) := by
    have hinvoked : Instruction.push.Invoked ⟨.word, "push", ⟨0, 0⟩⟩
        [⟨.number, (k + 1).repr, ⟨0, 5⟩⟩] := ⟨⟨rfl, rfl⟩, rfl⟩
    exact advance_eq_running.2 ⟨_, _, _, rfl, step_of_invoked hinvoked (.pushed rfl hpush), rfl⟩
  have hend := ends_counting (k := k) (by omega) (k + 1) 1 {}
  rw [← ((Reaches.refl _ _).head hfirst).ends_iff] at hend
  refine ⟨(textEnds_of_ok (ofText_countingText (k + 1))).2 ⟨_, _, hend, ?_, ?_⟩, ?_⟩
  · simp [outcome, report, holding, Stack.ofList, Nat.add_comm]
  · simp [holding]
  · intro hword p m hp hreach
    rw [ofText_countingText, Except.ok.injEq] at hp
    subst hp
    have hle := hreach.steps_le hend
    simp only [holding] at hle
    omega

theorem counting_down_ends_from_three :
    (1 ≤ 3 ∧ 3 ≤ 2 ^ 63 - 1 ∧ 22 < 2 ^ 64) ∧
      TextEnds "push 3\n:loop\ndup\nprint\npush 1\nsub\ndup\npush 0\njgt loop\n"
        ({} : PrintedValues) (.finished ⟨none, .ofList [.int 0], 22⟩)
        ⟨#[.int 3, .int 2, .int 1]⟩ ∧
      ∀ m, Reaches (counting 3) { output := ({} : PrintedValues) } m → m.steps < 2 ^ 64 := by
  obtain ⟨hend, hsteps⟩ := counting_down_ends (n := 3) (by decide) (by decide)
  exact ⟨by decide, hend, fun m => hsteps (by decide) _ m (ofText_countingText 3)⟩

section Growing

def growingText (t : String) : String :=
  "push \"" ++ String.ofList (t.toList.flatMap escaped) ++
    "\"\n:grow\ndup\nadd\npush 0\npush 0\nj grow\n"

def growingLines (t : String) : List Line :=
  [[⟨.word, "push", ⟨0, 0⟩⟩, ⟨.string, t, ⟨0, 5⟩⟩],
    [⟨.label, "grow", ⟨1, 0⟩⟩],
    [⟨.word, "dup", ⟨2, 0⟩⟩],
    [⟨.word, "add", ⟨3, 0⟩⟩],
    [⟨.word, "push", ⟨4, 0⟩⟩, ⟨.number, "0", ⟨4, 5⟩⟩],
    [⟨.word, "push", ⟨5, 0⟩⟩, ⟨.number, "0", ⟨5, 5⟩⟩],
    [⟨.word, "j", ⟨6, 0⟩⟩, ⟨.word, "grow", ⟨6, 2⟩⟩]]

def growing (t : String) : Program :=
  ⟨(growingLines t).toArray, [("grow", 1)]⟩

theorem ofText_growingText (t : String) : Program.ofText (growingText t) = .ok (growing t) := by
  have hsource : source (growingLines t) = growingText t := by
    rw [← String.toList_inj]
    simp [source, growingLines, growingText, Line.source, Token.source, List.intercalate]
  have hlexical : ∀ line ∈ growingLines t, line.Lexical := by
    simp [growingLines, Line.Lexical, Token.Lexical, WordChar]
  rw [← hsource, Program.ofText_source hlexical]
  rfl

variable {σ : Type} [Output σ]

def doubling (x : String) (steps : Nat) (output : σ) : Machine σ :=
  { stack := ⟨[.text x, .text x]⟩, pc := 3, afterContent := true, steps, output }

theorem reaches_doubling (t x : String) (steps : Nat) (output : σ) :
    Reaches (growing t) (holding (.text x) 1 steps output) (doubling x (steps + 1) output) :=
  ⟨2, rfl⟩

/-- What comes of the addition hangs on the bytes of the text alone. -/
theorem step_doubling (labels : Labels) (x : String) (steps : Nat) (output : σ) :
    (doubling x steps output).step labels [⟨.word, "add", ⟨3, 0⟩⟩] =
      (doubling x steps output).settle .empty
        (if x.utf8ByteSize * 2 ≤ Value.maxTextBytes then .ok (.text (x ++ x))
        else .error ⟨⟨3, 0⟩, .textTooLong⟩) := by
  have hinvoked : (Instruction.compute .add).Invoked ⟨.word, "add", ⟨3, 0⟩⟩ [] := ⟨⟨rfl, rfl⟩, rfl⟩
  rw [Arithmetic.add.gives_apply (.text x) (.text x) _ labels _ [] .empty hinvoked rfl, Nat.mul_two]
  simp only [Arithmetic.apply, Value.add, Value.join_eq]
  split <;> rfl

theorem reaches_doubled {x : String} (h : x.utf8ByteSize * 2 ≤ Value.maxTextBytes) (t : String)
    (steps : Nat) (output : σ) :
    Reaches (growing t) (doubling x steps output) (holding (.text (x ++ x)) 1 (steps + 4) output) := by
  have hstep := step_doubling (growing t).labels x steps output
  rw [if_pos h] at hstep
  have hturn : advance (growing t) (doubling x steps output) =
      (.running, holding (.text (x ++ x)) 4 (steps + 1) output) :=
    advance_eq_running.2 ⟨_, _, _, rfl, hstep, rfl⟩
  exact .head hturn ⟨3, rfl⟩

theorem ends_doubling {x : String} (h : Value.maxTextBytes < x.utf8ByteSize * 2) (t : String)
    (steps : Nat) (output : σ) :
    Ends (growing t) (doubling x steps output) (.failed ⟨⟨3, 0⟩, .textTooLong⟩)
      { pc := 3, afterContent := true, steps := steps + 1, output } := by
  have hstep := step_doubling (growing t).labels x steps output
  rw [if_neg (by omega)] at hstep
  exact .of_advance (advance_eq_failed.2 ⟨_, rfl, hstep⟩) (by simp)

/-- The limit is first broken in the round after `k` others. -/
def BreaksLimitAfter (bytes k : Nat) : Prop :=
  Value.maxTextBytes < bytes * 2 ^ (k + 1) ∧ ∀ j < k, bytes * 2 ^ (j + 1) ≤ Value.maxTextBytes

theorem exists_breaksLimitAfter {bytes : Nat} (h : 0 < bytes) : ∃ k, BreaksLimitAfter bytes k := by
  have hbroken : ∃ k, Value.maxTextBytes < bytes * 2 ^ (k + 1) := by
    refine ⟨Value.maxTextBytes, ?_⟩
    calc Value.maxTextBytes < 2 ^ Value.maxTextBytes := Nat.lt_two_pow_self
      _ ≤ 2 ^ (Value.maxTextBytes + 1) := Nat.pow_le_pow_right (by decide) (Nat.le_succ _)
      _ ≤ bytes * 2 ^ (Value.maxTextBytes + 1) := Nat.le_mul_of_pos_left _ h
  exact ⟨Nat.find hbroken, Nat.find_spec hbroken,
    fun j hj => Nat.le_of_not_lt (Nat.find_min hbroken hj)⟩

theorem BreaksLimitAfter.double {bytes k : Nat} (h : BreaksLimitAfter bytes (k + 1)) :
    bytes * 2 ≤ Value.maxTextBytes ∧ BreaksLimitAfter (bytes + bytes) k := by
  have hdouble (j : Nat) : (bytes + bytes) * 2 ^ (j + 1) = bytes * 2 ^ (j + 1 + 1) := by
    rw [Nat.pow_succ 2 (j + 1), ← Nat.mul_two]
    ring
  refine ⟨h.2 0 (by omega), ?_, fun j hj => ?_⟩
  · rw [hdouble]
    exact h.1
  · rw [hdouble]
    exact h.2 (j + 1) (by omega)

theorem ends_growing {k : Nat} {x : String} (h : BreaksLimitAfter x.utf8ByteSize k) (t : String)
    (steps : Nat) (output : σ) :
    Ends (growing t) (holding (.text x) 1 steps output) (.failed ⟨⟨3, 0⟩, .textTooLong⟩)
      { pc := 3, afterContent := true, steps := steps + 5 * k + 2, output } := by
  induction k generalizing x steps with
  | zero =>
    rw [(reaches_doubling t x steps output).ends_iff]
    exact ends_doubling h.1 t (steps + 1) output
  | succ k ih =>
    obtain ⟨hfits, hrest⟩ := h.double
    rw [← String.utf8ByteSize_append] at hrest
    have hend := ih hrest (steps + 5)
    have hsteps : steps + 5 + 5 * k + 2 = steps + 5 * (k + 1) + 2 := by omega
    rw [hsteps] at hend
    rw [(reaches_doubling t x steps output).ends_iff,
      (reaches_doubled hfits t (steps + 1) output).ends_iff]
    exact hend

end Growing

/-- Doubling a text that is not empty always ends, and by the limit: at the addition of the first
round that would go beyond it, with its operands taken off and nothing printed. If `k` rounds came
before, this was after five steps for each of them and three others. -/
theorem growth_is_stopped {σ : Type} [Output σ] {t : String} (ht : t ≠ "") (output : σ) :
    ∃ k p m, (Value.maxTextBytes < t.utf8ByteSize * 2 ^ (k + 1) ∧
        ∀ j < k, t.utf8ByteSize * 2 ^ (j + 1) ≤ Value.maxTextBytes) ∧
      Program.ofText (growingText t) = .ok p ∧
      Ends p { output } (.failed ⟨⟨3, 0⟩, .textTooLong⟩) m ∧
      m.stack = .empty ∧ m.output = output ∧ m.steps = 5 * k + 3 ∧
      TextEnds (growingText t) output (.failed ⟨⟨3, 0⟩, .textTooLong⟩) output := by
  have hbytes : 0 < t.utf8ByteSize :=
    Nat.pos_of_ne_zero (mt String.utf8ByteSize_eq_zero_iff.1 ht)
  obtain ⟨k, hk⟩ := exists_breaksLimitAfter hbytes
  have hfirst : advance (growing t) { output } = (.running, holding (.text t) 1 1 output) := rfl
  have hend := ends_growing hk t 1 output
  rw [← ((Reaches.refl _ _).head hfirst).ends_iff] at hend
  have htext := ofText_growingText t
  exact ⟨k, growing t, _, hk, htext, hend, rfl, rfl, by simp; omega,
    (textEnds_of_ok htext).2 ⟨_, _, hend, rfl, rfl⟩⟩

theorem growth_is_stopped_of_accented :
    "é\n" ≠ "" ∧
      ∃ (p : Program) (m : Machine PrintedValues),
        Program.ofText "push \"é\\n\"\n:grow\ndup\nadd\npush 0\npush 0\nj grow\n" = .ok p ∧
        Ends p { output := {} } (.failed ⟨⟨3, 0⟩, .textTooLong⟩) m ∧
        m.stack = .empty ∧ m.output.values = #[] ∧ m.steps = 113 := by
  have hsome : "é\n" ≠ "" := by decide
  obtain ⟨k, p, m, ⟨hbroken, hkept⟩, htext, hend, hstack, hout, hsteps, -⟩ :=
    growth_is_stopped hsome ({} : PrintedValues)
  have hle : k ≤ 22 := by
    by_contra hlt
    exact absurd (hkept 22 (by omega)) (by decide)
  have hge : 22 ≤ k := by
    by_contra hlt
    have hpow : 2 ^ (k + 1) ≤ 2 ^ 22 := Nat.pow_le_pow_right (by decide) (by omega)
    have hbytes : "é\n".utf8ByteSize = 3 := by decide
    rw [hbytes, Value.maxTextBytes] at hbroken
    omega
  exact ⟨hsome, p, m, htext, hend, hstack, by rw [hout], by omega⟩

end Stackline
