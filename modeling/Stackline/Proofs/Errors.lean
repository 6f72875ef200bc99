import Stackline.Proofs.Conversion
import Stackline.Proofs.Runs
import Stackline.Proofs.Steps

/-! Where errors come from. Every operation that can fail is given with the causes it can name. None
of them is a fault: an operation that is not defined for all arguments is only used where an earlier
test has passed, a shape with a slot for every argument that is read, a divisor whose float view is
no zero, a text that stays short enough. -/
namespace Stackline

/-- Which part of the work finds out about a cause. -/
inductive Origin where
  | text
  | arguments
  | names
  | dispatch
  | values
  | effect
  | machine
  deriving DecidableEq

def Cause.origin : Cause → Origin
  | illegalCharacter _ | invalidEscape _ | unterminatedString => .text
  | expectedEndOfLine _ | unexpectedEndOfLine _ | unexpectedKind _ _ | unexpectedLiteral _ _ =>
    .arguments
  | labelAlreadyDefined _ | labelNotAlone | emptyLabel | unknownAlias _ | aliasChain _ => .names
  | directiveAfterCode | unknownDirective _ | unknownInstruction _ | unexpectedToken _ => .dispatch
  | invalidTypes _ _ _ | divisionByZero | negativeRepeat | textTooLong => .values
  | stackUnderflow | integerOutOfRange _ | unknownLabel _ | output _ => .effect
  | internal _ => .machine

namespace Value

theorem numeric_error {operation : Operation} {onInts : Int64 → Int64 → Except Cause Int64}
    {onFloats : Binary64 → Binary64 → Binary64} {a b : Value} {c : Cause}
    (hints : ∀ x y, a = int x → b = int y → ∃ z, onInts x y = .ok z)
    (h : numeric operation onInts onFloats a b = .error c) :
    c = .invalidTypes operation a.type b.type := by
  cases a with
  | int x =>
    cases b with
    | int y =>
      obtain ⟨z, hz⟩ := hints x y rfl rfl
      simp only [numeric, hz] at h
      cases h
    | float y => cases h
    | text t =>
      cases h
      rfl
  | float x =>
    cases b with
    | int y => cases h
    | float y => cases h
    | text t =>
      cases h
      rfl
  | text s => cases b <;> cases h <;> rfl

/-- What passes the zero test has a divisor for which the operation on integers is defined. -/
theorem dividing_error {operation : Operation} {onInts : Int64 → Int64 → Except Cause Int64}
    {onFloats : Binary64 → Binary64 → Binary64} {a b : Value} {c : Cause}
    (hints : ∀ x y, y ≠ 0 → ∃ z, onInts x y = .ok z)
    (h : dividing operation onInts onFloats a b = .error c) :
    c = .divisionByZero ∨ c = .invalidTypes operation a.type b.type := by
  simp only [dividing] at h
  split at h
  · cases h
    exact Or.inl rfl
  · rename_i hz
    refine Or.inr (numeric_error ?_ h)
    intro x y hx hy
    subst hx hy
    have hne : y ≠ 0 := by simpa [toBinary64?] using hz
    exact hints x y hne

theorem join_error {x y : String} {c : Cause} (h : join x y = .error c) : c = .textTooLong := by
  rw [join_eq] at h
  split at h
  · cases h
  · cases h
    rfl

theorem times_error {s : String} {n : Int64} {c : Cause} (h : times s n = .error c) :
    c = .negativeRepeat ∨ c = .textTooLong := by
  rw [times_eq] at h
  split at h
  · cases h
    exact Or.inl rfl
  · split at h
    · cases h
    · cases h
      exact Or.inr rfl

theorem compare_error {operation : Operation} {onInts : Int64 → Int64 → Bool}
    {onFloats : Binary64 → Binary64 → Bool} {a b : Value} {c : Cause}
    (h : compare operation onInts onFloats a b = .error c) :
    c = .invalidTypes operation a.type b.type := by
  cases a <;> cases b <;> cases h <;> rfl

end Value

theorem Arithmetic.apply_error {op : Arithmetic} {a b : Value} {c : Cause}
    (h : op.apply a b = .error c) : c.origin = .values := by
  cases op with
  | add =>
    simp only [apply, Value.add] at h
    split at h
    · rw [Value.join_error h]
      rfl
    · rw [Value.numeric_error (by simp) h]
      rfl
  | sub =>
    rw [Value.numeric_error (by simp) h]
    rfl
  | mul =>
    simp only [apply, Value.mul] at h
    split at h
    · cases Value.times_error h with
      | inl hn =>
        rw [hn]
        rfl
      | inr hl =>
        rw [hl]
        rfl
    · rw [Value.numeric_error (by simp) h]
      rfl
  | div =>
    cases Value.dividing_error (by simp +contextual [Value.quotient]) h with
    | inl hz =>
      rw [hz]
      rfl
    | inr ht =>
      rw [ht]
      rfl
  | mod =>
    cases Value.dividing_error (by simp +contextual [Value.leftover]) h with
    | inl hz =>
      rw [hz]
      rfl
    | inr ht =>
      rw [ht]
      rfl

theorem Condition.holds_error {condition : Condition} {a b : Value} {c : Cause}
    (h : condition.holds a b = .error c) : c.origin = .values := by
  cases condition with
  | less =>
    rw [Value.compare_error h]
    rfl
  | greater =>
    rw [Value.compare_error h]
    rfl
  | _ => cases h

variable {e : Error}

theorem Stack.pop_error {s : Stack} {p : Position} (h : s.pop p = .error e) :
    e = ⟨p, .stackUnderflow⟩ := by
  simp only [pop] at h
  split at h
  · cases h
    rfl
  · cases h

theorem Stack.popPair_error {s : Stack} {p : Position} (h : s.popPair p = .error e) :
    e = ⟨p, .stackUnderflow⟩ := by
  simp only [popPair] at h
  split at h
  · cases h
  · cases h
    rfl

theorem Token.operand_error {t : Token} (h : t.operand = .error e) :
    e = ⟨t.position, .integerOutOfRange t.literal⟩ := by
  simp only [operand] at h
  split at h
  · split at h
    · cases h
    · cases h
      rfl
  · cases h

theorem Labels.target_error {labels : Labels} {t : Token} (h : labels.target t = .error e) :
    e = ⟨t.position, .unknownLabel t.literal⟩ := by
  simp only [target] at h
  split at h
  · cases h
  · cases h
    rfl

theorem Slot.check_error {s : Slot} {t : Token} (h : s.check t = .error e) :
    e.cause.origin = .arguments := by
  have mismatch (found : Kind) : (s.kindMismatch found).origin = .arguments := by
    simp only [kindMismatch]
    split_ifs <;> rfl
  simp only [check] at h
  split_ifs at h <;> cases h
  · rfl
  · exact mismatch t.kind

theorem Shape.check_error {s : Shape} {head : Token} {args : List Token}
    (h : s.check head args = .error e) : e.cause.origin = .arguments := by
  cases check_error_cases h with
  | inl hslot =>
    obtain ⟨slot, t, -, he⟩ := hslot
    exact slot.check_error he
  | inr htrailing =>
    obtain ⟨kinds, t, -, rfl⟩ := htrailing
    rfl

variable {σ : Type} [Output σ]

theorem Instruction.Effect.error {i : Instruction} {labels : Labels} {head : Token}
    {args : List Token} {stack after : Stack} {output left : σ}
    (h : i.Effect labels head args stack output (.error e) after left) :
    e.cause.origin = .values ∨ e.cause.origin = .effect := by
  cases h with
  | undefined hpop hv => exact Or.inl (Arithmetic.apply_error hv)
  | incomparable hargs hpop ht hc => exact Or.inl (Condition.holds_error hc)
  | unreadable hargs he =>
    rw [Token.operand_error he]
    exact Or.inr rfl
  | lost hargs hpop he =>
    rw [Labels.target_error he]
    exact Or.inr rfl
  | noValue hi he =>
    rw [Stack.pop_error he]
    exact Or.inr rfl
  | noPair hi he =>
    rw [Stack.popPair_error he]
    exact Or.inr rfl
  | refused hpop hout => exact Or.inr rfl

theorem Machine.step_error {m m' : Machine σ} {labels : Labels} {line : Line}
    (h : m.step labels line = (.error e, m')) :
    e.cause.origin ∈ [Origin.dispatch, .arguments, .values, .effect] := by
  cases step_effect h with
  | late hk hlate => simp [Cause.origin]
  | unknownDirective hk hearly hd => simp [Cause.origin]
  | unknownInstruction hk hw hi => simp [Cause.origin]
  | stray hk => simp [Cause.origin]
  | unfitDirective hk hearly hd hs => simp [Shape.check_error hs]
  | unfitInstruction hk hw hi hs => simp [Shape.check_error hs]
  | executed hk hw hi hs he =>
    cases he.error with
    | inl hv => simp [hv]
    | inr hv => simp [hv]

namespace Scope

variable {s : Scope}

theorem declareAlias_error {head : Token} {args : List Token}
    (h : s.declareAlias head args = .error e) : declarationShape.check head args = .error e := by
  simp only [declareAlias] at h
  cases hs : declarationShape.check head args with
  | error e' =>
    rw [hs] at h
    cases h
    rfl
  | ok =>
    rw [hs] at h
    -- What fits the shape has a name and a target, so that neither is missing.
    have hl := Shape.length_le_of_check_ofKinds (by simp) hs
    match args, hl with
    | name :: target :: rest, _ => cases h

theorem defineLabel_error {line : Nat} {head : Token} {args : List Token}
    (h : s.defineLabel line head args = .error e) : e.cause.origin = .names := by
  simp only [defineLabel] at h
  split_ifs at h <;> cases h <;> rfl

theorem substitute_error {t : Token} (h : s.substitute t = .error e) : e.cause.origin = .names := by
  simp only [substitute] at h
  split at h
  · split at h
    · cases h
      rfl
    · split at h <;> cases h
      rfl
  · cases h

theorem substituteAll_error {ts us : List Token} (h : s.substituteAll ts = (.error e, us)) :
    e.cause.origin = .names := by
  induction ts generalizing us with
  | nil => cases h
  | cons t ts ih =>
    simp only [substituteAll] at h
    cases ht : s.substitute t with
    | error e' =>
      rw [ht] at h
      cases h
      exact substitute_error ht
    | ok u =>
      rw [ht] at h
      exact ih (Prod.ext (Prod.mk.inj h).1 rfl)

theorem resolveLine_error {index : Nat} {line left : Line}
    (h : s.resolveLine index line = (.error e, left)) :
    e.cause.origin = .arguments ∨ e.cause.origin = .names := by
  simp only [resolveLine] at h
  split at h
  · exact Or.inr (defineLabel_error (Prod.mk.inj h).1)
  · exact Or.inl (Shape.check_error (declareAlias_error (Prod.mk.inj h).1))
  · cases hr : s.substituteAll line with
    | mk result us =>
      rw [hr] at h
      cases result with
      | error e' =>
        cases h
        exact Or.inr (substituteAll_error hr)
      | ok => cases h

theorem resolveFrom_error {index : Nat} {lines left : List Line}
    (h : s.resolveFrom index lines = (.error e, left)) :
    e.cause.origin = .arguments ∨ e.cause.origin = .names := by
  induction lines generalizing s index left with
  | nil => cases h
  | cons line lines ih =>
    simp only [resolveFrom] at h
    cases hl : s.resolveLine index line with
    | mk result kept =>
      rw [hl] at h
      cases result with
      | error e' =>
        cases h
        exact resolveLine_error hl
      | ok s' => exact ih (Prod.ext (Prod.mk.inj h).1 rfl)

end Scope

/-- No operation is used outside its domain: whatever tokens the lines are made of, neither
resolving them nor executing any program, from any state and into any output, ends in a fault. -/
theorem no_fault_reachable {σ : Type} [Output σ] (lines : List Line) (p : Program) (m : Machine σ)
    (fuel : Nat) (q : Position) (f : Fault) :
    (resolve lines).1 ≠ .error ⟨q, .internal f⟩ ∧
      (Machine.run p fuel m).1 ≠ .failed ⟨q, .internal f⟩ := by
  constructor
  · intro h
    have ho := Scope.resolveFrom_error (Prod.ext h rfl : resolve lines = (_, _))
    simp [Cause.origin] at ho
  · intro h
    obtain ⟨m₁, line, -, -, hs⟩ := Machine.run_failed (Prod.ext h rfl : m.run p fuel = (_, _))
    have ho := Machine.step_error hs
    simp [Cause.origin] at ho

end Stackline
