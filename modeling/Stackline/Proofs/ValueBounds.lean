import Stackline.Proofs.ControlFlow
import Stackline.Proofs.Printing

/-! Which values a program can come to have. Starting with none it never has a float, and none of its
texts is longer than both the limit for computed texts and the longest string that it writes down.
So this is also true of the values that it prints, whatever becomes of them. -/
namespace Stackline

/-- No float, and no text of more bytes than the limit. -/
def Value.Fits (limit : Nat) : Value → Prop
  | int _ => True
  | float _ => False
  | text s => s.utf8ByteSize ≤ limit

def longestString (lines : List Line) : Nat :=
  ((lines.flatten.filter (·.hasKind .string)).map (·.literal.utf8ByteSize)).max?.getD 0

/-- The number of bytes that no text of the program exceeds. -/
def textLimit (lines : List Line) : Nat :=
  max Value.maxTextBytes (longestString lines)

theorem le_longestString {lines : List Line} {line : Line} {t : Token} (hline : line ∈ lines)
    (ht : t ∈ line) (hk : t.kind = .string) : t.literal.utf8ByteSize ≤ longestString lines := by
  apply List.le_max?_getD_of_mem
  refine List.mem_map_of_mem (List.mem_filter.2 ⟨?_, by simp [hk]⟩)
  exact List.mem_flatten_of_mem hline ht

namespace Value

variable {limit : Nat} {a b v : Value}

theorem numeric_fits {operation : Operation} {onInts : Int64 → Int64 → Except Cause Int64}
    {onFloats : Binary64 → Binary64 → Binary64} (ha : a.Fits limit) (hb : b.Fits limit)
    (h : numeric operation onInts onFloats a b = .ok v) : v.Fits limit := by
  cases a with
  | float x => exact ha.elim
  | text s => cases b <;> cases h
  | int x =>
    cases b with
    | float y => exact hb.elim
    | text t => cases h
    | int y =>
      simp only [numeric] at h
      cases hz : onInts x y with
      | error c =>
        rw [hz] at h
        cases h
      | ok z =>
        rw [hz] at h
        cases h
        trivial

theorem dividing_fits {operation : Operation} {onInts : Int64 → Int64 → Except Cause Int64}
    {onFloats : Binary64 → Binary64 → Binary64} (ha : a.Fits limit) (hb : b.Fits limit)
    (h : dividing operation onInts onFloats a b = .ok v) : v.Fits limit := by
  simp only [dividing] at h
  split at h
  · cases h
  · exact numeric_fits ha hb h

theorem join_fits {x y : String} (hlimit : maxTextBytes ≤ limit) (h : join x y = .ok v) :
    v.Fits limit := by
  rw [join_eq] at h
  split at h
  · rename_i hle
    cases h
    rw [Fits, String.utf8ByteSize_append]
    exact Nat.le_trans hle hlimit
  · cases h

theorem times_fits {s : String} {n : Int64} (hlimit : maxTextBytes ≤ limit)
    (h : times s n = .ok v) : v.Fits limit := by
  rw [times_eq] at h
  split_ifs at h with hneg hle
  cases h
  rw [Fits, Text.utf8ByteSize_repeated]
  exact Nat.le_trans hle hlimit

end Value

theorem Arithmetic.apply_fits {op : Arithmetic} {limit : Nat} {a b v : Value}
    (hlimit : Value.maxTextBytes ≤ limit) (ha : a.Fits limit) (hb : b.Fits limit)
    (h : op.apply a b = .ok v) : v.Fits limit := by
  cases op with
  | add =>
    simp only [apply, Value.add] at h
    split at h
    · exact Value.join_fits hlimit h
    · exact Value.numeric_fits ha hb h
  | sub => exact Value.numeric_fits ha hb h
  | mul =>
    simp only [apply, Value.mul] at h
    split at h
    · exact Value.times_fits hlimit h
    · exact Value.numeric_fits ha hb h
  | div => exact Value.dividing_fits ha hb h
  | mod => exact Value.dividing_fits ha hb h

def Token.Fits (limit : Nat) (t : Token) : Prop :=
  t.kind = .string → t.literal.utf8ByteSize ≤ limit

theorem Token.operand_fits {limit : Nat} {t : Token} {v : Value} (hk : t.kind ∈ [.number, .string])
    (ht : t.Fits limit) (h : t.operand = .ok v) : v.Fits limit := by
  simp only [operand] at h
  split at h
  · split at h
    · cases h
      trivial
    · cases h
  · rename_i hnumber
    cases h
    cases List.mem_cons.1 hk with
    | inl hkind => exact absurd hkind hnumber
    | inr hkind => exact ht (List.mem_singleton.1 hkind)

def Stack.Fits (limit : Nat) (s : Stack) : Prop :=
  ∀ v ∈ s.items, v.Fits limit

@[simp] theorem Stack.fits_empty (limit : Nat) : Stack.empty.Fits limit := by
  simp [Fits, empty]

@[simp] theorem Stack.fits_push {limit : Nat} {s : Stack} {v : Value} :
    (s.push v).Fits limit ↔ v.Fits limit ∧ s.Fits limit := by
  simp [Fits, push]

theorem Stack.Fits.of_pop {limit : Nat} {s below : Stack} {v : Value} {q : Position}
    (h : s.Fits limit) (hpop : s.pop q = .ok (v, below)) : v.Fits limit ∧ below.Fits limit := by
  rwa [Stack.pop_eq_ok.1 hpop, Stack.fits_push] at h

theorem Stack.Fits.of_popPair {limit : Nat} {s below : Stack} {a b : Value} {q : Position}
    (h : s.Fits limit) (hpop : s.popPair q = .ok ((a, b), below)) :
    b.Fits limit ∧ a.Fits limit ∧ below.Fits limit := by
  rwa [Stack.popPair_eq_ok.1 hpop, Stack.fits_push, Stack.fits_push] at h

section Execution

variable {σ : Type} [Output σ] {limit : Nat}

theorem Instruction.Effect.fits {i : Instruction} {labels : Labels} {head : Token}
    {args : List Token} {stack after : Stack} {output left : σ} {result : Except Error Flow}
    (h : i.Effect labels head args stack output result after left)
    (hs : i.shape.check head args = .ok ()) (hlimit : Value.maxTextBytes ≤ limit)
    (hargs : ∀ t ∈ args, t.Fits limit) (hstack : stack.Fits limit) : after.Fits limit := by
  cases h with
  | pushed hcons hv =>
    subst hcons
    have hk := Shape.kind_mem_of_check_ofKinds hs
    exact Stack.fits_push.2 ⟨Token.operand_fits hk (hargs _ List.mem_cons_self) hv, hstack⟩
  | unreadable hcons he => exact hstack
  | printed hpop hout => exact (hstack.of_pop hpop).2
  | refused hpop hout => exact (hstack.of_pop hpop).2
  | cleared => exact Stack.fits_empty limit
  | doubled hpop =>
    have hpopped := hstack.of_pop hpop
    exact Stack.fits_push.2 ⟨hpopped.1, Stack.fits_push.2 hpopped⟩
  | computed hpop hv =>
    obtain ⟨hb, ha, hbelow⟩ := hstack.of_popPair hpop
    exact Stack.fits_push.2 ⟨Arithmetic.apply_fits hlimit ha hb hv, hbelow⟩
  | undefined hpop hv => exact (hstack.of_popPair hpop).2.2
  | lost hcons hpop he => exact (hstack.of_popPair hpop).2.2
  | incomparable hcons hpop ht hc => exact (hstack.of_popPair hpop).2.2
  | jumped hcons hpop ht hc => exact (hstack.of_popPair hpop).2.2
  | passed hcons hpop ht hc => exact (hstack.of_popPair hpop).2.2
  | noValue hi he => exact hstack
  | noPair hi he => exact hstack

namespace Machine

variable {p : Program} {m m' : Machine σ}

theorem fits_of_step {labels : Labels} {line : Line} {result : Except Error Flow}
    (h : m.step labels line = (result, m')) (hlimit : Value.maxTextBytes ≤ limit)
    (hline : ∀ t ∈ line, t.Fits limit) (hstack : m.stack.Fits limit) : m'.stack.Fits limit := by
  cases step_effect h with
  | executed hk hw hi hs he =>
    exact he.fits hs hlimit (fun t ht => hline t (List.mem_cons_of_mem _ ht)) hstack
  | _ => exact hstack

theorem fits_of_run (hlimit : Value.maxTextBytes ≤ limit)
    (hlines : ∀ line ∈ p.lines, ∀ t ∈ line, t.Fits limit) {fuel : Nat} {status : Status}
    (h : run p fuel m = (status, m')) (hstack : m.stack.Fits limit) : m'.stack.Fits limit :=
  run_invariant (I := fun m => m.stack.Fits limit)
    (fun _ _ _ _ hi hline hs =>
      fits_of_step hs hlimit (hlines _ (Array.mem_of_getElem? hline)) hi)
    (fun _ _ hi => by rwa [stack_follow]) h hstack

end Machine
end Execution

theorem Program.tokens_fit {lines : List Line} {p : Program} (h : Program.ofLines lines = .ok p) :
    ∀ line ∈ p.lines, ∀ t ∈ line, t.Fits (textLimit lines) := by
  obtain ⟨scope, left, hr, rfl⟩ := Program.exists_resolve h
  have hleft := Scope.resolveFrom_forall (P := Token.Fits (textLimit lines))
    (fun _ _ ht => ht) hr (by simp) fun line hline t ht hk =>
      Nat.le_trans (le_longestString hline ht hk) (Nat.le_max_right _ _)
  simpa using hleft

/-- An output that notes each value before it hands it on. -/
structure Noting (σ : Type) where
  output : σ
  handed : List Value := []

instance {σ : Type} [Output σ] : Output (Noting σ) where
  accept noting v :=
    match Output.accept noting.output v with
    | (result, output) => (result, ⟨output, noting.handed ++ [v]⟩)

theorem Noting.accept_eq {σ : Type} [Output σ] {output left : σ} {v : Value}
    {result : Except String Unit} (h : Output.accept output v = (result, left))
    (handed : List Value) :
    Output.accept (⟨output, handed⟩ : Noting σ) v = (result, ⟨left, handed ++ [v]⟩) := by
  change (match Output.accept output v with
    | (result, output) => (result, (⟨output, handed ++ [v]⟩ : Noting σ))) = _
  rw [h]

namespace Machine

variable {σ : Type} [Output σ] {p : Program} {m m' : Machine σ} {status : Status}

theorem advance_noting (h : advance p m = (status, m')) (handed : List Value) :
    ∃ vs, (∀ v ∈ vs, v ∈ m.stack.items) ∧
      advance p (m.into (⟨m.output, handed⟩ : Noting σ)) =
        (status, m'.into ⟨m'.output, handed ++ vs⟩) := by
  by_cases hprint : ∃ head v, m.Printing p head v
  · obtain ⟨head, v, hprint⟩ := hprint
    refine ⟨[v], by simpa using List.mem_of_head? hprint.top, ?_⟩
    have hprint' := hprint.into (⟨m.output, handed⟩ : Noting σ)
    cases hout : Output.accept m.output v with
    | mk result left =>
      cases result with
      | ok =>
        have hturn := hprint.advance_accepted hout
        rw [h] at hturn
        cases hturn
        exact hprint'.advance_accepted (Noting.accept_eq hout handed)
      | error reason =>
        have hturn := hprint.advance_refused hout
        rw [h] at hturn
        cases hturn
        exact hprint'.advance_refused (Noting.accept_eq hout handed)
  · have hsilent : ∀ head v, ¬m.Printing p head v := by simpa using hprint
    obtain ⟨hout, hturn⟩ := advance_silent h hsilent (⟨m.output, handed⟩ : Noting σ)
    exact ⟨[], by simp, by rw [hturn, hout, List.append_nil]⟩

/-- What a run hands over lay on the stack somewhere on the way. -/
theorem run_noting {Q : Value → Prop} {fuel : Nat} (h : run p fuel m = (status, m'))
    (hQ : ∀ m₁, Reaches p m m₁ → ∀ v ∈ m₁.stack.items, Q v) (handed : List Value) :
    ∃ vs, (∀ v ∈ vs, Q v) ∧
      run p fuel (m.into (⟨m.output, handed⟩ : Noting σ)) =
        (status, m'.into ⟨m'.output, handed ++ vs⟩) := by
  -- The values noted before are carried along, since each turn puts its own behind them.
  induction fuel generalizing m handed with
  | zero =>
    cases h
    refine ⟨[], by simp, ?_⟩
    rw [List.append_nil]
    rfl
  | succ fuel ih =>
    have hstart : ∀ v ∈ m.stack.items, Q v := hQ m (.refl p m)
    cases run_succ.1 h with
    | inl hmore =>
      obtain ⟨m₁, ha, hr⟩ := hmore
      obtain ⟨vs, hvs, hturn⟩ := advance_noting ha handed
      obtain ⟨ws, hws, hrest⟩ := ih hr (fun m₂ hreach => hQ m₂ (hreach.head ha)) (handed ++ vs)
      refine ⟨vs ++ ws, ?_, ?_⟩
      · intro v hv
        cases List.mem_append.1 hv with
        | inl hfirst => exact hstart v (hvs v hfirst)
        | inr hlater => exact hws v hlater
      · rw [← List.append_assoc]
        exact run_succ.2 (Or.inl ⟨_, hturn, hrest⟩)
    | inr hlast =>
      obtain ⟨vs, hvs, hturn⟩ := advance_noting hlast.2 handed
      exact ⟨vs, fun v hv => hstart v (hvs v hv), run_succ.2 (Or.inr ⟨hlast.1, hturn⟩)⟩

end Machine

/-- Wherever a run that starts with an empty stack has come, no value on the stack is a float, and no
text there exceeds the limit; and the same is true of every value that was handed to the output, as
the run shows that goes the same way but notes them. -/
theorem values_stay_within_limits {σ : Type} [Output σ] {lines : List Line} {p : Program}
    (hp : Program.ofLines lines = .ok p) {m m' : Machine σ} (start : m.stack = .empty)
    {fuel : Nat} {status : Status} (h : Machine.run p fuel m = (status, m')) :
    (∀ v ∈ m'.stack.items, v.Fits (textLimit lines)) ∧
      ∃ handed : List Value,
        Machine.run p fuel (m.into (⟨m.output, []⟩ : Noting σ)) =
          (status, m'.into ⟨m'.output, handed⟩) ∧
        ∀ v ∈ handed, v.Fits (textLimit lines) := by
  have hfits {turns : Nat} {status₁ : Status} {m₁ : Machine σ}
      (hr : Machine.run p turns m = (status₁, m₁)) : m₁.stack.Fits (textLimit lines) := by
    apply Machine.fits_of_run (Nat.le_max_left _ _) (Program.tokens_fit hp) hr
    rw [start]
    exact Stack.fits_empty _
  refine ⟨hfits h, ?_⟩
  have hreached : ∀ m₁, Machine.Reaches p m m₁ → ∀ v ∈ m₁.stack.items, v.Fits (textLimit lines) := by
    intro m₁ hreach
    obtain ⟨turns, hturns⟩ := hreach
    exact hfits hturns
  obtain ⟨vs, hvs, hrun⟩ := Machine.run_noting h hreached []
  exact ⟨vs, hrun, hvs⟩

def repeating : List Line :=
  [[⟨.word, "alias", ⟨0, 0⟩⟩, ⟨.word, "s", ⟨0, 6⟩⟩, ⟨.string, "ab", ⟨0, 8⟩⟩],
    [⟨.word, "push", ⟨1, 0⟩⟩, ⟨.reference, "s", ⟨1, 5⟩⟩],
    [⟨.word, "push", ⟨2, 0⟩⟩, ⟨.number, "3", ⟨2, 5⟩⟩],
    [⟨.word, "mul", ⟨3, 0⟩⟩],
    [⟨.word, "print", ⟨4, 0⟩⟩]]

theorem values_stay_within_limits_of_repeating :
    ∃ p m' handed, Program.ofLines repeating = .ok p ∧
      Machine.run p 5 { output := ({ room := some 3 } : ByteSink) } =
        (.failed ⟨⟨4, 0⟩, .output "sink full"⟩, m') ∧
      (∀ v ∈ m'.stack.items, v.Fits (textLimit repeating)) ∧
      Machine.run p 5 { output := (⟨{ room := some 3 }, []⟩ : Noting ByteSink) } =
        (.failed ⟨⟨4, 0⟩, .output "sink full"⟩, m'.into ⟨m'.output, handed⟩) ∧
      ∀ v ∈ handed, v.Fits (textLimit repeating) := by
  have hp : Program.ofLines repeating =
      .ok ⟨#[[⟨.word, "alias", ⟨0, 0⟩⟩, ⟨.word, "s", ⟨0, 6⟩⟩, ⟨.string, "ab", ⟨0, 8⟩⟩],
        [⟨.word, "push", ⟨1, 0⟩⟩, ⟨.string, "ab", ⟨1, 5⟩⟩],
        [⟨.word, "push", ⟨2, 0⟩⟩, ⟨.number, "3", ⟨2, 5⟩⟩],
        [⟨.word, "mul", ⟨3, 0⟩⟩],
        [⟨.word, "print", ⟨4, 0⟩⟩]], []⟩ := rfl
  generalize hq : Program.mk _ _ = q at hp
  have hstatus : (Machine.run q 5 { output := ({ room := some 3 } : ByteSink) }).1 =
      .failed ⟨⟨4, 0⟩, .output "sink full"⟩ := by
    subst hq
    decide +kernel
  obtain ⟨m', hrun⟩ : ∃ m', Machine.run q 5 { output := ({ room := some 3 } : ByteSink) } =
      (.failed ⟨⟨4, 0⟩, .output "sink full"⟩, m') := ⟨_, Prod.ext hstatus rfl⟩
  obtain ⟨hstack, handed, hnoted, hhanded⟩ := values_stay_within_limits hp rfl hrun
  exact ⟨q, m', handed, hp, hrun, hstack, hnoted, hhanded⟩

end Stackline
