import Stackline.Proofs.Rendering
import Stackline.Proofs.Sinks
import Mathlib.Data.List.Induction
import Mathlib.Data.Nat.Digits.Defs

/-! Integers in decimal. Pushing a number reads a sign and digits exactly, as long as 64 bits hold
what they mean; printing writes what pushing reads, without zeros in front. -/
namespace Stackline

def decimalValue (digits : List Char) : Nat :=
  Nat.ofDigits 10 (digits.reverse.map fun d => d.toNat - '0'.toNat)

/-- An optional sign and one or more digits, and the integer that they mean. -/
inductive IsNumeral : List Char → Int → Prop
  | unsigned {ds : List Char} (nonempty : ds ≠ []) (digits : ∀ d ∈ ds, d.isDigit = true) :
      IsNumeral ds (decimalValue ds)
  | positive {ds : List Char} (nonempty : ds ≠ []) (digits : ∀ d ∈ ds, d.isDigit = true) :
      IsNumeral ('+' :: ds) (decimalValue ds)
  | negative {ds : List Char} (nonempty : ds ≠ []) (digits : ∀ d ∈ ds, d.isDigit = true) :
      IsNumeral ('-' :: ds) (-decimalValue ds)

/-- The digits without the zeros in front, or a single zero if nothing else is left. -/
def canonical (digits : List Char) : List Char :=
  match digits.dropWhile (· == '0') with
  | [] => ['0']
  | rest => rest

section Digits

theorem ofDigitChars_eq_decimalValue (ds : List Char) :
    Nat.ofDigitChars 10 ds 0 = decimalValue ds := by
  induction ds using List.reverseRecOn with
  | nil => rfl
  | append_singleton ds d ih =>
    rw [Nat.ofDigitChars_append, Nat.ofDigitChars_cons, Nat.ofDigitChars_nil, ih]
    simp only [decimalValue, List.reverse_append, List.reverse_singleton, List.singleton_append,
      List.map_cons, Nat.ofDigits_cons]
    omega

theorem decimalValue_toDigits (n : Nat) : decimalValue (Nat.toDigits 10 n) = n := by
  rw [← ofDigitChars_eq_decimalValue, Nat.ofDigitChars_ten_toDigits]

theorem toDigits_digit {d : Char} (h : d.isDigit = true) :
    Nat.toDigits 10 (d.toNat - '0'.toNat) = [d] := by
  obtain ⟨hlow, hhigh⟩ := Char.isDigit_iff_toNat.1 h
  change 48 ≤ d.toNat at hlow
  change d.toNat ≤ 57 at hhigh
  change Nat.toDigits 10 (d.toNat - 48) = [d]
  have hlt : d.toNat - 48 < 10 := by omega
  have hchar : (d.toNat - 48).digitChar = d := by
    rw [← Char.toNat_inj, Nat.toNat_digitChar_of_lt_ten hlt]
    omega
  rw [Nat.toDigits_of_lt_base hlt, hchar]

/-- Further digits are written behind those of the number so far, unless that is zero. -/
theorem toDigits_ofDigitChars {ds : List Char} (hds : ∀ d ∈ ds, d.isDigit = true) {n : Nat}
    (hn : 0 < n) : Nat.toDigits 10 (Nat.ofDigitChars 10 ds n) = Nat.toDigits 10 n ++ ds := by
  induction ds generalizing n with
  | nil => simp
  | cons d ds ih =>
    have hd := hds d List.mem_cons_self
    have hlt : d.toNat - '0'.toNat < 10 := by
      have hhigh := (Char.isDigit_iff_toNat.1 hd).2
      change d.toNat ≤ 57 at hhigh
      change d.toNat - 48 < 10
      omega
    rw [Nat.ofDigitChars_cons, ih (fun e he => hds e (List.mem_cons_of_mem d he)) (by omega),
      ← Nat.toDigits_append_toDigits (by decide) hn hlt, toDigits_digit hd, List.append_assoc]
    rfl

theorem toDigits_decimalValue {ds : List Char} (hds : ∀ d ∈ ds, d.isDigit = true) :
    Nat.toDigits 10 (decimalValue ds) = canonical ds := by
  rw [← ofDigitChars_eq_decimalValue]
  induction ds with
  | nil => rfl
  | cons d ds ih =>
    have hd := hds d List.mem_cons_self
    have hrest : ∀ e ∈ ds, e.isDigit = true := fun e he => hds e (List.mem_cons_of_mem d he)
    -- A zero in front is lost; the first other digit is the first one written.
    by_cases hzero : d = '0'
    · subst hzero
      rw [Nat.ofDigitChars_cons]
      exact ih hrest
    · have hpos : 0 < d.toNat - '0'.toNat := by
        have hlow := (Char.isDigit_iff_toNat.1 hd).1
        have hne : d.toNat ≠ '0'.toNat := fun heq => hzero (Char.toNat_inj.1 heq)
        omega
      rw [Nat.ofDigitChars_cons, Nat.mul_zero, Nat.zero_add, toDigits_ofDigitChars hrest hpos,
        toDigits_digit hd]
      simp [canonical, hzero]

theorem decimalValue_canonical {ds : List Char} (hds : ∀ d ∈ ds, d.isDigit = true) :
    decimalValue (canonical ds) = decimalValue ds := by
  rw [← toDigits_decimalValue hds, decimalValue_toDigits]

end Digits

section Reading

theorem Value.splitSign_cases (cs : List Char) :
    (∃ ds, cs = '-' :: ds ∧ splitSign cs = (true, ds)) ∨
      (∃ ds, cs = '+' :: ds ∧ splitSign cs = (false, ds)) ∨ splitSign cs = (false, cs) := by
  unfold splitSign
  split
  · exact Or.inl ⟨_, rfl, rfl⟩
  · exact Or.inr (Or.inl ⟨_, rfl, rfl⟩)
  · exact Or.inr (Or.inr rfl)

theorem Value.splitSign_digits {ds : List Char} (hds : ∀ d ∈ ds, d.isDigit = true) :
    splitSign ds = (false, ds) := by
  obtain ⟨rest, rfl, -⟩ | ⟨rest, rfl, -⟩ | h := splitSign_cases ds
  · exact absurd (hds '-' List.mem_cons_self) (by decide)
  · exact absurd (hds '+' List.mem_cons_self) (by decide)
  · exact h

theorem isNumeral_iff {cs ds : List Char} {n : Int} {negative : Bool}
    (hsplit : Value.splitSign cs = (negative, ds)) :
    IsNumeral cs n ↔ (ds ≠ [] ∧ ∀ d ∈ ds, d.isDigit = true) ∧
      n = if negative then -(decimalValue ds : Int) else decimalValue ds := by
  constructor
  · intro h
    cases h with
    | unsigned hsome hdigits =>
      rw [Value.splitSign_digits hdigits] at hsplit
      cases hsplit
      exact ⟨⟨hsome, hdigits⟩, rfl⟩
    | positive hsome hdigits =>
      cases hsplit
      exact ⟨⟨hsome, hdigits⟩, rfl⟩
    | negative hsome hdigits =>
      cases hsplit
      exact ⟨⟨hsome, hdigits⟩, rfl⟩
  · intro h
    obtain ⟨⟨hsome, hdigits⟩, rfl⟩ := h
    obtain ⟨rest, rfl, hcs⟩ | ⟨rest, rfl, hcs⟩ | hcs := Value.splitSign_cases cs
    · cases hcs.symm.trans hsplit
      exact .negative hsome hdigits
    · cases hcs.symm.trans hsplit
      exact .positive hsome hdigits
    · cases hcs.symm.trans hsplit
      exact .unsigned hsome hdigits

theorem ofInt_in_range {n : Int} {v : Int64} :
    (if Int64.minValue.toInt ≤ n ∧ n ≤ Int64.maxValue.toInt then some (Int64.ofInt n) else none) =
      some v ↔ v.toInt = n := by
  have hmin : Int64.minValue.toInt = -2 ^ 63 := Int64.toInt_minValue
  have hmax : Int64.maxValue.toInt = 2 ^ 63 - 1 := Int64.toInt_maxValue
  constructor
  · intro h
    split at h
    · rename_i hrange
      cases h
      exact Int64.toInt_ofInt_of_le (by omega) (by omega)
    · cases h
  · intro h
    have hlow := v.le_toInt
    have hhigh := v.toInt_lt
    rw [if_pos (by omega), ← h, Int64.ofInt_toInt]

theorem Value.readInt?_eq_some {literal : String} {v : Int64} :
    readInt? literal = some v ↔ IsNumeral literal.toList v.toInt := by
  cases hsplit : splitSign literal.toList with
  | mk negative ds =>
    rw [isNumeral_iff hsplit]
    simp only [readInt?, hsplit, List.all_eq_true, ofDigitChars_eq_decimalValue]
    by_cases hdigits : ds ≠ [] ∧ ∀ d ∈ ds, d.isDigit = true
    · rw [if_pos hdigits, ofInt_in_range]
      exact ⟨fun h => ⟨hdigits, h⟩, fun h => h.2⟩
    · rw [if_neg hdigits]
      exact ⟨fun h => absurd h (by simp), fun h => absurd h.1 hdigits⟩

theorem isNumeral_repr (n : Int) : IsNumeral n.repr.toList n := by
  have hdigits (k : Nat) : ∀ d ∈ Nat.toDigits 10 k, d.isDigit = true :=
    fun d hd => Nat.isDigit_of_mem_toDigits (by decide) (by decide) hd
  cases n with
  | ofNat k =>
    have hnumeral := IsNumeral.unsigned Nat.toDigits_ne_nil (hdigits k)
    rw [decimalValue_toDigits] at hnumeral
    rwa [Int.repr, Nat.toList_repr]
  | negSucc k =>
    have hnumeral := IsNumeral.negative Nat.toDigits_ne_nil (hdigits (k + 1))
    rw [decimalValue_toDigits] at hnumeral
    rwa [Int.repr, String.toList_append, Nat.toList_repr]

end Reading

/-- Wherever `push` is invoked with the token, it comes to this result, over the stack as it was. -/
def Token.Pushed (t : Token) (result : Except Error Value) : Prop :=
  ∀ {σ : Type} [Output σ] (m : Machine σ) (labels : Labels) (head : Token) (rest : List Token),
    Instruction.push.Invoked head (t :: rest) →
      m.step labels (head :: t :: rest) = m.settle m.stack result

theorem Token.pushed_operand (t : Token) : t.Pushed t.operand := by
  intro σ _ m labels head rest hinvoked
  cases hv : t.operand with
  | ok v => exact Machine.step_of_invoked hinvoked (.pushed rfl hv)
  | error e => exact Machine.step_of_invoked hinvoked (.unreadable rfl hv)

theorem Token.pushed_iff {t : Token} (hk : t.kind = .number) {result : Except Error Value} :
    t.Pushed result ↔ t.operand = result := by
  constructor
  · intro h
    let m : Machine PrintedValues := { output := {} }
    have hinvoked : Instruction.push.Invoked
        ⟨.word, Instruction.push.mnemonic, ⟨0, 0⟩⟩ [t] := ⟨⟨rfl, rfl⟩, by
      obtain ⟨kind, literal, position⟩ := t
      subst hk
      rfl⟩
    have hpushed := h m [] _ [] hinvoked
    rwa [t.pushed_operand m [] _ [] hinvoked, Machine.settle_inj] at hpushed
  · intro h
    exact h ▸ t.pushed_operand

def Token.InRange (t : Token) : Prop :=
  ∃ n, IsNumeral t.literal.toList n ∧ -2 ^ 63 ≤ n ∧ n ≤ 2 ^ 63 - 1

theorem Token.operand_of_number {t : Token} (hk : t.kind = .number) :
    t.operand = (Value.readInt? t.literal).elim
      (.error ⟨t.position, .integerOutOfRange t.literal⟩) fun n => .ok (.int n) := by
  simp only [operand, hk]
  cases Value.readInt? t.literal <;> rfl

theorem Token.inRange_iff {t : Token} :
    t.InRange ↔ ∃ v, Value.readInt? t.literal = some v := by
  simp only [Value.readInt?_eq_some]
  constructor
  · intro h
    obtain ⟨n, hn, hlow, hhigh⟩ := h
    refine ⟨Int64.ofInt n, ?_⟩
    rwa [Int64.toInt_ofInt_of_le hlow (by omega)]
  · intro h
    obtain ⟨v, hv⟩ := h
    have hhigh := v.toInt_lt
    exact ⟨v.toInt, hv, v.le_toInt, by omega⟩

/-- Wherever the token is pushed and the next line prints it, the sink, if there is room, has the
text behind what it had before, and the stack is as it was. -/
def Token.PrintedAs (t : Token) (text : String) : Prop :=
  ∀ (p : Program) (m : Machine ByteSink) (push print : Token) (rest args : List Token),
    p.lines[m.pc]? = some (push :: t :: rest) → Instruction.push.Invoked push (t :: rest) →
    p.lines[m.pc + 1]? = some (print :: args) → Instruction.print.Invoked print args →
    m.output.HasRoom text.toUTF8.size → m.output.flushError = none →
      Machine.run p 2 m =
        (.running,
          { m with
            pc := m.pc + 2, afterContent := true, steps := m.steps + 2,
            output := { m.output with written := m.output.written ++ text.toUTF8 } })

theorem Token.printedAs_of_operand {t : Token} {v : Value} (h : t.operand = .ok v) :
    t.PrintedAs v.render := by
  intro p m push print rest args hpush hinvoked hprint hinvoked' hroom hflush
  have hfirst : Machine.advance p m =
      (.running, (m.leftWith (m.stack.push v)).follow .next) := by
    have hstep := t.pushed_operand m p.labels push rest hinvoked
    rw [h] at hstep
    exact Machine.advance_eq_running.2 ⟨_, .next, _, hpush, hstep, rfl⟩
  have hsecond : Machine.advance p ((m.leftWith (m.stack.push v)).follow .next) =
      (.running,
        { m with
          pc := m.pc + 2, afterContent := true, steps := m.steps + 2,
          output := { m.output with written := m.output.written ++ v.render.toUTF8 } }) := by
    have hprinted : Instruction.print.Effect p.labels print args (m.stack.push v) m.output
        (.ok .next) m.stack { m.output with written := m.output.written ++ v.render.toUTF8 } :=
      .printed rfl (ByteSink.accept_of_hasRoom hflush hroom)
    exact Machine.advance_eq_running.2
      ⟨_, .next, _, hprint, Machine.step_of_invoked hinvoked' hprinted, rfl⟩
  exact Machine.run_succ.2 (.inl ⟨_, hfirst, Machine.run_succ.2 (.inl ⟨_, hsecond, rfl⟩)⟩)

theorem Token.printedAs_canonical {t : Token} (hk : t.kind = .number) (hsome : t.literal ≠ "")
    (hdigits : ∀ c ∈ t.literal.toList, c.isDigit = true)
    (hrange : decimalValue t.literal.toList ≤ 2 ^ 63 - 1) :
    t.PrintedAs (String.ofList (canonical t.literal.toList)) := by
  have hvalue : (Int64.ofInt (decimalValue t.literal.toList)).toInt =
      decimalValue t.literal.toList := Int64.toInt_ofInt_of_le (by omega) (by omega)
  have hread : Value.readInt? t.literal =
      some (Int64.ofInt (decimalValue t.literal.toList)) := by
    rw [Value.readInt?_eq_some, hvalue]
    exact .unsigned (by simpa using hsome) hdigits
  have hrender : (Value.int (Int64.ofInt (decimalValue t.literal.toList))).render =
      String.ofList (canonical t.literal.toList) := by
    rw [← toDigits_decimalValue hdigits, ← Nat.toList_repr, String.ofList_toList, Value.render,
      hvalue]
    rfl
  rw [← hrender]
  apply printedAs_of_operand
  rw [operand_of_number hk, hread]
  rfl

/-- A number can be pushed if its literal is an optional sign and some digits that mean an integer
within 64 bits; that integer is pushed then, and otherwise the literal is told to be out of range at
the number's place and nothing is pushed. What is printed for an integer is read as that integer. And
a number of a text that is pushed and printed comes out with the zeros in front of it left out, which
means the same. -/
theorem integer_literals_are_exact :
    (∀ t : Token, t.kind = .number →
      (∀ v, t.Pushed (.ok v) ↔ ∃ n : Int64, v = .int n ∧ IsNumeral t.literal.toList n.toInt) ∧
      ((∃ v, t.Pushed (.ok v)) ↔ t.InRange) ∧
      (t.Pushed (.error ⟨t.position, .integerOutOfRange t.literal⟩) ↔ ¬t.InRange)) ∧
    (∀ (v : Int64) (p : Position),
      (⟨.number, (Value.int v).render, p⟩ : Token).Pushed (.ok (.int v))) ∧
    ∀ text lines, Line.ofText text = .ok lines → ∀ line ∈ lines, ∀ t ∈ line, t.kind = .number →
      decimalValue t.literal.toList ≤ 2 ^ 63 - 1 →
        decimalValue (canonical t.literal.toList) = decimalValue t.literal.toList ∧
        t.PrintedAs (String.ofList (canonical t.literal.toList)) := by
  refine ⟨?_, ?_, ?_⟩
  · intro t hk
    simp only [Token.pushed_iff hk, Token.operand_of_number hk, Token.inRange_iff,
      ← Value.readInt?_eq_some]
    cases Value.readInt? t.literal with
    | none => simp
    | some n => simp [eq_comm]
  · intro v p
    have hread : Value.readInt? (Value.int v).render = some v :=
      Value.readInt?_eq_some.2 (isNumeral_repr v.toInt)
    rw [Token.pushed_iff rfl, Token.operand_of_number rfl, hread]
    rfl
  · intro text lines hread line hline t ht hk hrange
    have hlexical := Line.lexical_of_ofText hread line hline t ht
    simp only [Token.Lexical, hk] at hlexical
    exact ⟨decimalValue_canonical hlexical.2,
      Token.printedAs_canonical hk hlexical.1 hlexical.2 hrange⟩

theorem integer_literals_are_exact_of_extremes :
    (⟨.number, "-9223372036854775808", ⟨0, 5⟩⟩ : Token).Pushed (.ok (.int Int64.minValue)) ∧
      (⟨.number, "9223372036854775808", ⟨0, 5⟩⟩ : Token).Pushed
        (.error ⟨⟨0, 5⟩, .integerOutOfRange "9223372036854775808"⟩) ∧
      Line.ofText "push 007\nprint" =
        .ok [[⟨.word, "push", ⟨0, 0⟩⟩, ⟨.number, "007", ⟨0, 5⟩⟩], [⟨.word, "print", ⟨1, 0⟩⟩]] ∧
      (⟨.number, "007", ⟨0, 5⟩⟩ : Token).PrintedAs "7" := by
  obtain ⟨hpushed, -, hprinted⟩ := integer_literals_are_exact
  obtain ⟨hleast, -, -⟩ := hpushed ⟨.number, "-9223372036854775808", ⟨0, 5⟩⟩ rfl
  obtain ⟨-, -, hbeyond⟩ := hpushed ⟨.number, "9223372036854775808", ⟨0, 5⟩⟩ rfl
  have hread : Line.ofText "push 007\nprint" =
      .ok [[⟨.word, "push", ⟨0, 0⟩⟩, ⟨.number, "007", ⟨0, 5⟩⟩], [⟨.word, "print", ⟨1, 0⟩⟩]] := by
    decide +kernel
  refine ⟨hleast _ |>.2 ⟨_, rfl, ?_⟩, hbeyond.2 ?_, hread, ?_⟩
  · exact Value.readInt?_eq_some.1 (by decide +kernel)
  · have hnone : Value.readInt? "9223372036854775808" = none := by decide +kernel
    rw [Token.inRange_iff, hnone]
    simp
  · have hseven := hprinted _ _ hread _ List.mem_cons_self ⟨.number, "007", ⟨0, 5⟩⟩ (by simp) rfl
      (by decide +kernel)
    exact hseven.2

end Stackline
