import Stackline.Proofs.Errors
import Stackline.Proofs.Resolution

/-! Uses of aliases are gone before execution. After resolution they are left on declarations only,
which execution walks over, so that no complaint about the kind of a token is about one of them. -/
namespace Stackline

def Cause.found? : Cause → Option Kind
  | expectedEndOfLine found => some found
  | unexpectedKind _ found => some found
  | unexpectedToken found => some found
  | _ => none

theorem Cause.found?_eq_none {c : Cause} (h : c.origin = .values ∨ c.origin = .effect) :
    c.found? = none := by
  cases c <;> simp [origin, found?] at h ⊢

section Checks

variable {e : Error} {k : Kind}

theorem Slot.found_of_check_error {s : Slot} {t : Token} (h : s.check t = .error e)
    (hk : e.cause.found? = some k) : k = t.kind := by
  simp only [check, kindMismatch] at h
  split_ifs at h <;> cases h <;> cases hk <;> rfl

theorem Shape.found_of_check_error {s : Shape} {head : Token} {args : List Token}
    (h : s.check head args = .error e) (hk : e.cause.found? = some k) :
    k = .endOfLine ∨ ∃ t ∈ args, t.kind = k := by
  cases check_error_cases h with
  | inl hslot =>
    obtain ⟨slot, t, ht, he⟩ := hslot
    have hkind := Slot.found_of_check_error he hk
    cases List.mem_cons.1 ht with
    | inl hend =>
      rw [hend] at hkind
      exact Or.inl hkind
    | inr hmem => exact Or.inr ⟨t, hmem, hkind.symm⟩
  | inr htrailing =>
    obtain ⟨kinds, t, ht, rfl⟩ := htrailing
    cases hk
    exact Or.inr ⟨t, ht, rfl⟩

end Checks

section Execution

variable {σ : Type} [Output σ] {e : Error} {k : Kind}

theorem Machine.found_of_step_error {m m' : Machine σ} {labels : Labels} {line : Line}
    (h : m.step labels line = (.error e, m')) (hk : e.cause.found? = some k) :
    line.isDeclaration = false ∧ (k = .endOfLine ∨ ∃ t ∈ line, t.kind = k) := by
  have hargs {head : Token} {args : List Token} (hfound : k = .endOfLine ∨ ∃ t ∈ args, t.kind = k) :
      k = .endOfLine ∨ ∃ t ∈ head :: args, t.kind = k :=
    hfound.imp_right fun ⟨t, ht, hkind⟩ => ⟨t, List.mem_cons_of_mem head ht, hkind⟩
  -- Only the checks of arguments and the complaint about a head say what they found.
  cases step_effect h with
  | late hkind hlate => cases hk
  | unknownDirective hkind hearly hd => cases hk
  | unknownInstruction hkind hw hi => cases hk
  | executed hkind hw hi hs he =>
    rw [Cause.found?_eq_none he.error] at hk
    cases hk
  | unfitDirective hkind hearly hd hs =>
    refine ⟨?_, hargs (Shape.found_of_check_error hs hk)⟩
    simp [Line.isDeclaration, Token.isExactly, hkind]
  | unfitInstruction hkind hw hi hs =>
    refine ⟨?_, hargs (Shape.found_of_check_error hs hk)⟩
    simp [Line.isDeclaration, Token.isExactly, hw]
  | stray hkind =>
    cases hk
    refine ⟨?_, Or.inr ⟨_, List.mem_cons_self, rfl⟩⟩
    simp [Line.isDeclaration, Token.isExactly, hkind.2.2]

end Execution

variable {lines left : List Line} {scope : Scope}

theorem declaration_of_reference (h : resolve lines = (.ok scope, left)) {i : Nat} {l : Line}
    {t : Token} (hl : left[i]? = some l) (ht : t ∈ l) (hk : t.kind = .reference) :
    lines[i]? = some l ∧ l.isDeclaration = true := by
  have hlt : i < lines.length := by
    rw [← length_resolve h]
    exact (List.getElem?_eq_some_iff.1 hl).1
  have hi : lines[i]? = some lines[i] := List.getElem?_eq_getElem hlt
  obtain ⟨s, s', l', -, -, hl', htakes⟩ := takes_of_resolve h hi
  rw [hl] at hl'
  cases hl'
  -- A use that is a declaration's target survives, since a target is not followed further.
  generalize lines[i] = line at hi htakes
  cases htakes with
  | label kind fresh named =>
    cases List.mem_singleton.1 ht
    rw [kind] at hk
    cases hk
  | declaration kind word fits => exact ⟨hi, Line.isDeclaration_iff.2 ⟨_, _, rfl, kind, word⟩⟩
  | other notLabel notDeclaration substituted =>
    exact absurd hk (Scope.kind_ne_reference_of_substituteAll substituted t ht)

/-- Resolution leaves uses of aliases on declarations only, and no run of what it leaves, from
whatever state, ends with an error that says that one was found. -/
theorem no_reference_is_executed (h : resolve lines = (.ok scope, left)) :
    (∀ (i : Nat) (l : Line) (t : Token), left[i]? = some l → t ∈ l → t.kind = .reference →
      ∃ line, lines[i]? = some line ∧ line.isDeclaration = true) ∧
    ∀ (σ : Type) [Output σ] (m m' : Machine σ) (fuel : Nat) (e : Error),
      Machine.run ⟨left.toArray, scope.labels⟩ fuel m = (.failed e, m') →
      e.cause.found? ≠ some .reference := by
  constructor
  · intro i l t hl ht hk
    exact ⟨l, declaration_of_reference h hl ht hk⟩
  · intro σ _ m m' fuel e hrun hfound
    obtain ⟨m₁, line, -, hline, hs⟩ := Machine.run_failed hrun
    rw [List.getElem?_toArray] at hline
    obtain ⟨hnot, hkind⟩ := Machine.found_of_step_error hs hfound
    cases hkind with
    | inl hend => cases hend
    | inr htoken =>
      obtain ⟨t, ht, hk⟩ := htoken
      obtain ⟨-, hdecl⟩ := declaration_of_reference h hline ht hk
      rw [hnot] at hdecl
      cases hdecl

def misplacedUse : List Line :=
  [[⟨.word, "alias", ⟨0, 0⟩⟩, ⟨.word, "a", ⟨0, 6⟩⟩, ⟨.number, "1", ⟨0, 8⟩⟩],
    [⟨.word, "alias", ⟨1, 0⟩⟩, ⟨.word, "b", ⟨1, 6⟩⟩, ⟨.reference, "a", ⟨1, 8⟩⟩],
    [⟨.word, "print", ⟨2, 0⟩⟩, ⟨.reference, "a", ⟨2, 6⟩⟩]]

theorem no_reference_is_executed_in_misplacedUse :
    ∃ scope left m', resolve misplacedUse = (.ok scope, left) ∧
      (∃ l t, left[1]? = some l ∧ t ∈ l ∧ t.kind = .reference) ∧
      (∃ line, misplacedUse[1]? = some line ∧ line.isDeclaration = true) ∧
      Machine.run ⟨left.toArray, scope.labels⟩ 3 { output := ({} : PrintedValues) } =
        (.failed ⟨⟨2, 6⟩, .expectedEndOfLine .number⟩, m') ∧
      Cause.found? (.expectedEndOfLine .number) ≠ some .reference := by
  have hr : resolve misplacedUse =
      (.ok ⟨[], [("b", ⟨.reference, "a", ⟨1, 8⟩⟩), ("a", ⟨.number, "1", ⟨0, 8⟩⟩)]⟩,
        misplacedUse.take 2 ++ [[⟨.word, "print", ⟨2, 0⟩⟩, ⟨.number, "1", ⟨2, 6⟩⟩]]) := rfl
  obtain ⟨hleft, hfound⟩ := no_reference_is_executed hr
  refine ⟨_, _, { pc := 2, afterContent := true, output := {} }, hr, ?_, ?_, rfl, ?_⟩
  · exact ⟨_, ⟨.reference, "a", ⟨1, 8⟩⟩, rfl, by simp, rfl⟩
  · exact hleft 1 _ ⟨.reference, "a", ⟨1, 8⟩⟩ rfl (by simp) rfl
  · exact hfound PrintedValues { output := {} } _ 3 _ rfl

end Stackline
