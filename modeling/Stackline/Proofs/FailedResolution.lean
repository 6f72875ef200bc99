import Stackline.Proofs.Errors
import Stackline.Proofs.Resolvability

/-! What a resolution that fails leaves behind. It fails at one line, for a reason that has to do
with this line and those above it only; these are left resolved, the line as far as it could be
resolved, and those below it as they are. -/
namespace Stackline

inductive Unresolved (lines : List Line) (i : Nat) (t : Token) : Error → Prop
  | unknown (hk : t.kind = .reference) (hnone : ∀ target, ¬StandsFor lines i t.literal target) :
      Unresolved lines i t ⟨t.position, .unknownAlias t.literal⟩
  | chained {target : Token} (hk : t.kind = .reference)
      (htarget : StandsFor lines i t.literal target) (hchain : target.kind = .reference) :
      Unresolved lines i t ⟨t.position, .aliasChain t.literal⟩

/-- What line `k` is left as if resolution fails there. -/
inductive LeftAtFailure (lines : List Line) (k : Nat) (e : Error) : Line → Line → Prop
  | label {head : Token} {args : List Token} (hk : head.kind = .label)
      (hcause : e.cause ∈ [.labelAlreadyDefined head.literal, .labelNotAlone, .emptyLabel]) :
      LeftAtFailure lines k e (head :: args) (head :: args)
  | declaration {head : Token} {args : List Token} (hk : head.kind = .word)
      (hw : head.literal = declarationWord) (hcheck : declarationShape.check head args = .error e) :
      LeftAtFailure lines k e (head :: args) (head :: args)
  | other {front back replaced : List Token} {t : Token}
      (hlabel : Line.isLabel (front ++ t :: back) = false)
      (hdecl : Line.isDeclaration (front ++ t :: back) = false)
      (hfront : List.Forall₂ (Becomes lines k) front replaced) (ht : Unresolved lines k t e) :
      LeftAtFailure lines k e (front ++ t :: back) (replaced ++ t :: back)

variable {lines : List Line} {k : Nat} {s : Scope} {e : Error}

theorem unresolved_of_substitute (h : (resolve (lines.take k)).1 = .ok s) {t : Token}
    (he : s.substitute t = .error e) : Unresolved lines k t e := by
  simp only [Scope.substitute] at he
  split at he
  · rename_i hk
    split at he
    · rename_i hnone
      cases he
      refine .unknown hk ?_
      intro target htarget
      rw [(lookup_aliases_iff h).2 htarget] at hnone
      cases hnone
    · rename_i target htarget
      split at he <;> cases he
      rename_i hchain
      exact .chained hk ((lookup_aliases_iff h).1 htarget) hchain
  · cases he

theorem leftAtFailure_of_resolveLine (h : (resolve (lines.take k)).1 = .ok s) {line l : Line}
    (he : s.resolveLine k line = (.error e, l)) : LeftAtFailure lines k e line l := by
  by_cases hlabel : line.isLabel = true
  · obtain ⟨head, args, rfl, hk⟩ := Line.isLabel_iff.1 hlabel
    rw [Scope.resolveLine_label hk] at he
    obtain ⟨hdefine, rfl⟩ := Prod.mk.inj he
    refine .label hk ?_
    simp only [Scope.defineLabel] at hdefine
    split_ifs at hdefine <;> cases hdefine <;> simp
  · by_cases hdecl : line.isDeclaration = true
    · obtain ⟨head, args, rfl, hk, hw⟩ := Line.isDeclaration_iff.1 hdecl
      rw [Scope.resolveLine_declaration hk hw] at he
      obtain ⟨hdeclare, rfl⟩ := Prod.mk.inj he
      exact .declaration hk hw (Scope.declareAlias_error hdeclare)
    · simp only [Bool.not_eq_true] at hlabel hdecl
      rw [Scope.resolveLine_other hlabel hdecl] at he
      cases s.substituteAll_cases line with
      | inl hall =>
        obtain ⟨us, -, hus⟩ := hall
        rw [hus] at he
        cases he
      | inr hsome =>
        obtain ⟨front, t, back, us, e', rfl, hus, ht, heq⟩ := hsome
        rw [heq] at he
        cases he
        simp only [substitute_eq_ok h] at hus
        exact .other hlabel hdecl hus (unresolved_of_substitute h ht)

section Prefixes

variable {front left done : List Line}

theorem resolve_append_error (h : resolve front = (.error e, left)) (back : List Line) :
    resolve (front ++ back) = (.error e, left ++ back) := by
  rw [resolve] at h ⊢
  rw [Scope.resolveFrom_append, h]

theorem resolve_concat_error {line l : Line} (h : resolve front = (.ok s, done))
    (he : s.resolveLine front.length line = (.error e, l)) :
    resolve (front ++ [line]) = (.error e, done ++ [l]) := by
  rw [resolve] at h ⊢
  rw [Scope.resolveFrom_append, h]
  simp only [Nat.zero_add, Scope.resolveFrom, he]

theorem lt_of_resolve_take {m n : Nat} (hm : resolve (lines.take m) = (.ok s, done))
    (hn : resolve (lines.take n) = (.error e, left)) : m < n := by
  by_contra hnot
  obtain ⟨rest, hrest⟩ := List.take_prefix_take_left (l := lines) (Nat.le_of_not_lt hnot)
  rw [← hrest, resolve_append_error hn] at hm
  cases hm

theorem exists_failing_line (h : resolve lines = (.error e, left)) :
    ∃ k line l scope done, lines[k]? = some line ∧ resolve (lines.take k) = (.ok scope, done) ∧
      scope.resolveLine k line = (.error e, l) ∧
      resolve (lines.take (k + 1)) = (.error e, done ++ [l]) := by
  obtain ⟨k, line, scope, hk, hscope, he⟩ := Scope.exists_resolveLine_error (congrArg Prod.fst h)
  rw [Nat.zero_add] at he
  obtain ⟨done, hdone⟩ : ∃ done, resolve (lines.take k) = (.ok scope, done) :=
    ⟨_, Prod.ext hscope rfl⟩
  obtain ⟨l, hl⟩ : ∃ l, scope.resolveLine k line = (.error e, l) := ⟨_, Prod.ext he rfl⟩
  refine ⟨k, line, l, scope, done, hk, hdone, hl, ?_⟩
  have hlen : (lines.take k).length = k :=
    List.length_take_of_le (Nat.le_of_lt (List.getElem?_eq_some_iff.1 hk).1)
  rw [List.take_add_one, hk]
  exact resolve_concat_error hdone (by rwa [hlen])

end Prefixes

/-- There is one line at which a resolution fails: the lines above it alone resolve, and with it
they no longer do. Those are left resolved and the lines below as they are, whichever they are. -/
theorem failed_resolution_state {left : List Line} (h : resolve lines = (.error e, left)) :
    ∃ k line l scope done, lines[k]? = some line ∧
      resolve (lines.take k) = (.ok scope, done) ∧
      resolve (lines.take (k + 1)) = (.error e, done ++ [l]) ∧
      (∀ k', (∃ s d, resolve (lines.take k') = (.ok s, d)) →
        (∃ e' d, resolve (lines.take (k' + 1)) = (.error e', d)) → k' = k) ∧
      LeftAtFailure lines k e line l ∧ left = done ++ l :: lines.drop (k + 1) ∧
      ∀ after, resolve (lines.take (k + 1) ++ after) = (.error e, done ++ l :: after) := by
  obtain ⟨k, line, l, scope, done, hk, hdone, hl, hfail⟩ := exists_failing_line h
  have hafter (after : List Line) :
      resolve (lines.take (k + 1) ++ after) = (.error e, done ++ l :: after) := by
    simpa using resolve_append_error hfail after
  refine ⟨k, line, l, scope, done, hk, hdone, hfail, ?_, ?_, ?_, hafter⟩
  · intro k' hok herror
    obtain ⟨s, d, hok⟩ := hok
    obtain ⟨e', d', herror⟩ := herror
    have hle := lt_of_resolve_take hok hfail
    have hge := lt_of_resolve_take hdone herror
    omega
  · exact leftAtFailure_of_resolveLine (by rw [hdone]) hl
  · have hwhole := hafter (lines.drop (k + 1))
    rw [List.take_append_drop, h] at hwhole
    exact (Prod.mk.inj hwhole).2

def halfDeclared : List Line :=
  [[⟨.word, "alias", ⟨0, 0⟩⟩, ⟨.word, "a", ⟨0, 6⟩⟩, ⟨.number, "1", ⟨0, 8⟩⟩],
    [⟨.reference, "a", ⟨1, 0⟩⟩, ⟨.reference, "b", ⟨1, 3⟩⟩, ⟨.reference, "a", ⟨1, 6⟩⟩],
    [⟨.reference, "a", ⟨2, 0⟩⟩]]

theorem failed_resolution_state_of_halfDeclared :
    resolve halfDeclared =
        (.error ⟨⟨1, 3⟩, .unknownAlias "b"⟩,
          [[⟨.word, "alias", ⟨0, 0⟩⟩, ⟨.word, "a", ⟨0, 6⟩⟩, ⟨.number, "1", ⟨0, 8⟩⟩],
            [⟨.number, "1", ⟨1, 0⟩⟩, ⟨.reference, "b", ⟨1, 3⟩⟩, ⟨.reference, "a", ⟨1, 6⟩⟩],
            [⟨.reference, "a", ⟨2, 0⟩⟩]]) ∧
      (∃ line l, halfDeclared[1]? = some line ∧
        LeftAtFailure halfDeclared 1 ⟨⟨1, 3⟩, .unknownAlias "b"⟩ line l) ∧
      ∀ after, (resolve (halfDeclared.take 2 ++ after)).1 = .error ⟨⟨1, 3⟩, .unknownAlias "b"⟩ := by
  have h : resolve halfDeclared = (.error ⟨⟨1, 3⟩, .unknownAlias "b"⟩, _) := rfl
  obtain ⟨k, line, l, scope, done, hk, -, -, hunique, hline, -, hafter⟩ := failed_resolution_state h
  obtain rfl : 1 = k := hunique 1 ⟨_, _, rfl⟩ ⟨_, _, rfl⟩
  refine ⟨rfl, ⟨line, l, hk, hline⟩, ?_⟩
  intro after
  exact congrArg Prod.fst (hafter after)

end Stackline
