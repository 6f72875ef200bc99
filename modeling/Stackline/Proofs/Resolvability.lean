import Stackline.Proofs.Resolution
import Stackline.Proofs.Shapes
import Mathlib.Data.List.Forall2

/-! Resolution said without the pass. An alias stands for what the latest declaration above its use
says; lines resolve if their labels are apart, their declarations in order and their aliases
declared, and what they resolve to is told line by line. -/
namespace Stackline

def Line.Declares (line : Line) (name : String) (target : Token) : Prop :=
  ∃ head named rest, line = head :: named :: target :: rest ∧ head.kind = .word ∧
    head.literal = declarationWord ∧ named.literal = name

def DeclaredAt (lines : List Line) (j : Nat) (name : String) (target : Token) : Prop :=
  ∃ line, lines[j]? = some line ∧ line.Declares name target

/-- What a name stands for on line `i`: the latest declaration above the line says so. -/
def StandsFor (lines : List Line) (i : Nat) (name : String) (target : Token) : Prop :=
  ∃ j < i, DeclaredAt lines j name target ∧
    ∀ k, j < k → k < i → ∀ other, ¬DeclaredAt lines k name other

/-- What a token of line `i` is to be replaced by: a use of an alias by what the alias stands for,
put in the place of the use, and any other token by itself. -/
inductive Becomes (lines : List Line) (i : Nat) (t : Token) : Token → Prop
  | same (hk : t.kind ≠ .reference) : Becomes lines i t t
  | replaced {target : Token} (hk : t.kind = .reference)
      (htarget : StandsFor lines i t.literal target) (hplain : target.kind ≠ .reference) :
      Becomes lines i t (target.moveTo t.position)

structure Resolvable (lines : List Line) : Prop where
  label_alone : ∀ (i : Nat) (t : Token) (rest : List Token), lines[i]? = some (t :: rest) →
    t.kind = .label → rest = [] ∧ t.literal ≠ ""
  label_unique : ∀ (i j : Nat) (t u : Token) (rest rest' : List Token),
    lines[i]? = some (t :: rest) → lines[j]? = some (u :: rest') → t.kind = .label →
    u.kind = .label → t.literal = u.literal → i = j
  declaration : ∀ (i : Nat) (head : Token) (args : List Token), lines[i]? = some (head :: args) →
    head.kind = .word → head.literal = declarationWord → declarationShape.check head args = .ok ()
  reference : ∀ (i : Nat) (line : Line) (t : Token), lines[i]? = some line → line.isLabel = false →
    line.isDeclaration = false → t ∈ line → t.kind = .reference →
    ∃ target, StandsFor lines i t.literal target ∧ target.kind ≠ .reference

/-- What lines are resolved to: a table of their labels, and as many lines, on which aliases are
replaced except where they are declared. -/
structure ResolvesTo (lines : List Line) (labels : Labels) (left : List Line) : Prop where
  labels : ∀ (name : String) (i : Nat), labels.lookup name = some i ↔
    ∃ t rest, lines[i]? = some (t :: rest) ∧ t.kind = .label ∧ t.literal = name
  length : left.length = lines.length
  kept : ∀ (i : Nat) (line : Line), lines[i]? = some line →
    line.isLabel = true ∨ line.isDeclaration = true → left[i]? = some line
  replaced : ∀ (i : Nat) (line : Line), lines[i]? = some line → line.isLabel = false →
    line.isDeclaration = false → ∃ l, left[i]? = some l ∧ List.Forall₂ (Becomes lines i) line l

theorem Aliases.lookup_filter (aliases : Aliases) {name other : String} (h : other ≠ name) :
    (aliases.filter fun entry => entry.1 != name).lookup other = aliases.lookup other := by
  induction aliases with
  | nil => rfl
  | cons entry aliases ih =>
    obtain ⟨key, value⟩ := entry
    by_cases hkey : key = name
    · subst hkey
      have hother : (other == key) = false := by simpa using h
      simpa [List.lookup_cons, hother] using ih
    · by_cases hother : other = key <;> simp [hkey, List.lookup_cons, hother, ih]

theorem Aliases.lookup_declare (aliases : Aliases) (name other : String) (target : Token) :
    (aliases.declare name target).lookup other =
      if other = name then some target else aliases.lookup other := by
  by_cases h : other = name
  · simp [declare, h]
  · have hother : (other == name) = false := by simpa using h
    simp only [declare, List.lookup_cons, hother, if_neg h]
    exact aliases.lookup_filter h

theorem Line.Declares.isDeclaration {line : Line} {name : String} {target : Token}
    (h : line.Declares name target) : line.isDeclaration = true := by
  obtain ⟨head, named, rest, rfl, hk, hw, -⟩ := h
  exact Line.isDeclaration_iff.2 ⟨head, _, rfl, hk, hw⟩

section Declarations

variable {lines : List Line} {i : Nat} {name : String} {target : Token}

theorem not_standsFor_zero : ¬StandsFor lines 0 name target := by
  intro h
  obtain ⟨j, hj, -⟩ := h
  exact Nat.not_lt_zero j hj

theorem standsFor_succ :
    StandsFor lines (i + 1) name target ↔
      DeclaredAt lines i name target ∨
        StandsFor lines i name target ∧ ∀ other, ¬DeclaredAt lines i name other := by
  constructor
  · intro h
    obtain ⟨j, hj, hdeclared, hlatest⟩ := h
    by_cases hji : j = i
    · subst hji
      exact Or.inl hdeclared
    · refine Or.inr ⟨⟨j, by omega, hdeclared, ?_⟩, hlatest i (by omega) (by omega)⟩
      intro k hk hki
      exact hlatest k hk (by omega)
  · intro h
    cases h with
    | inl hdeclared => exact ⟨i, by omega, hdeclared, fun k hk hki => absurd hk (by omega)⟩
    | inr hearlier =>
      obtain ⟨⟨j, hj, hdeclared, hlatest⟩, hnot⟩ := hearlier
      refine ⟨j, by omega, hdeclared, ?_⟩
      intro k hk hki
      by_cases hkeq : k = i
      · subst hkeq
        exact hnot
      · exact hlatest k hk (by omega)

end Declarations

namespace Scope

variable {s s' : Scope}

theorem Takes.lookup_aliases {index : Nat} {line left : Line} (h : s.Takes index line s' left)
    (name : String) (target : Token) :
    s'.aliases.lookup name = some target ↔
      line.Declares name target ∨
        s.aliases.lookup name = some target ∧ ∀ other, ¬line.Declares name other := by
  have hplain (hd : line.isDeclaration = false) (other : Token) : ¬line.Declares name other := by
    intro hdeclares
    rw [hdeclares.isDeclaration] at hd
    cases hd
  cases h with
  | @label t kind fresh named =>
    have hnot := hplain (by simp [Line.isDeclaration, Token.isExactly, kind])
    simp [hnot]
  | @declaration head named target' rest kind word fits =>
    have hdeclares (other : Token) :
        Line.Declares (head :: named :: target' :: rest) name other ↔
          name = named.literal ∧ other = target' := by
      constructor
      · intro hd
        obtain ⟨_, _, _, hline, -, -, rfl⟩ := hd
        cases hline
        exact ⟨rfl, rfl⟩
      · intro hd
        obtain ⟨rfl, rfl⟩ := hd
        exact ⟨head, named, rest, rfl, kind, word, rfl⟩
    simp only [hdeclares, Aliases.lookup_declare]
    by_cases hn : name = named.literal <;> simp [hn, eq_comm]
  | other notLabel notDeclaration substituted => simp [hplain notDeclaration]

theorem substituteAll_cases (s : Scope) (ts : List Token) :
    (∃ us, List.Forall₂ (fun t u => s.substitute t = .ok u) ts us ∧
      s.substituteAll ts = (.ok (), us)) ∨
    ∃ front t back us e, ts = front ++ t :: back ∧
      List.Forall₂ (fun t u => s.substitute t = .ok u) front us ∧ s.substitute t = .error e ∧
      s.substituteAll ts = (.error e, us ++ t :: back) := by
  induction ts with
  | nil => exact Or.inl ⟨[], .nil, rfl⟩
  | cons t ts ih =>
    simp only [substituteAll]
    cases ht : s.substitute t with
    | error e => exact Or.inr ⟨[], t, ts, [], e, rfl, .nil, ht, rfl⟩
    | ok u =>
      cases ih with
      | inl hall =>
        obtain ⟨us, hus, heq⟩ := hall
        exact Or.inl ⟨u :: us, .cons ht hus, by rw [heq]⟩
      | inr hsome =>
        obtain ⟨front, t', back, us, e, rfl, hus, he, heq⟩ := hsome
        exact Or.inr ⟨t :: front, t', back, u :: us, e, rfl, .cons ht hus, he, by rw [heq]; rfl⟩

theorem forall₂_of_substituteAll {ts us : List Token} (h : s.substituteAll ts = (.ok (), us)) :
    List.Forall₂ (fun t u => s.substitute t = .ok u) ts us := by
  cases s.substituteAll_cases ts with
  | inl hall =>
    obtain ⟨us', hus, heq⟩ := hall
    rw [heq] at h
    cases h
    exact hus
  | inr hsome =>
    obtain ⟨front, t, back, us', e, -, -, -, heq⟩ := hsome
    rw [heq] at h
    cases h

end Scope

section Resolved

variable {lines left : List Line} {scope s : Scope} {i : Nat}

theorem lookup_aliases_iff (h : (resolve (lines.take i)).1 = .ok s) {name : String}
    {target : Token} : s.aliases.lookup name = some target ↔ StandsFor lines i name target := by
  induction i generalizing s target with
  | zero =>
    cases h
    simp [not_standsFor_zero]
  | succ i ih =>
    rw [standsFor_succ]
    cases hline : lines[i]? with
    | none =>
      have hdeclared (other : Token) : ¬DeclaredAt lines i name other := by
        simp [DeclaredAt, hline]
      rw [List.take_add_one, hline] at h
      simp only [Option.toList_none, List.append_nil] at h
      simp [hdeclared, ih h]
    | some line =>
      have hdeclared (u : Token) : DeclaredAt lines i name u ↔ line.Declares name u := by
        simp [DeclaredAt, hline]
      have htake : (lines.take (i + 1))[i]? = some line := by simpa using hline
      obtain ⟨s₀, s₁, l, hs₀, hs₁, -, htakes⟩ := takes_of_resolve (Prod.ext h rfl) htake
      simp only [List.take_take, Nat.min_self, Nat.min_eq_left (Nat.le_succ i)] at hs₀ hs₁
      rw [h] at hs₁
      cases hs₁
      simp only [hdeclared, ← ih hs₀]
      exact htakes.lookup_aliases name target

theorem substitute_eq_ok (h : (resolve (lines.take i)).1 = .ok s) {t u : Token} :
    s.substitute t = .ok u ↔ Becomes lines i t u := by
  constructor
  · intro hu
    by_cases hk : t.kind = .reference
    · obtain ⟨target, hl, hplain, rfl⟩ := Scope.substitute_reference hk hu
      exact .replaced hk ((lookup_aliases_iff h).1 hl) hplain
    · rw [Scope.substitute_of_ne_reference hk] at hu
      cases hu
      exact .same hk
  · intro hu
    cases hu with
    | same hk => exact Scope.substitute_of_ne_reference hk
    | replaced hk htarget hplain =>
      simp [Scope.substitute, hk, (lookup_aliases_iff h).2 htarget, hplain]

/-- What is known above line `i` takes it in, as far as the line can be resolved. -/
theorem Resolvable.takes (hlines : Resolvable lines) {line : Line} (hi : lines[i]? = some line)
    (h : resolve (lines.take i) = (.ok s, left)) : ∃ s' l, s.Takes i line s' l := by
  by_cases hlabel : line.isLabel = true
  · obtain ⟨t, rest, rfl, hk⟩ := Line.isLabel_iff.1 hlabel
    obtain ⟨rfl, hnamed⟩ := hlines.label_alone i t rest hi hk
    refine ⟨_, _, .label hk ?_ hnamed⟩
    rw [Option.eq_none_iff_forall_ne_some]
    intro j hj
    -- An entry of that name is for a line above, but the name is on no other line.
    obtain ⟨u, hu, hku, hname⟩ := (lookup_labels_iff h).1 hj
    have hlt : j < i := by
      have hlen := (List.getElem?_eq_some_iff.1 hu).1
      rw [List.length_take] at hlen
      omega
    rw [List.getElem?_take_of_lt hlt] at hu
    have hji := hlines.label_unique j i u t [] [] hu hi hku hk hname
    omega
  · by_cases hdecl : line.isDeclaration = true
    · obtain ⟨head, args, rfl, hk, hw⟩ := Line.isDeclaration_iff.1 hdecl
      have hfits := hlines.declaration i head args hi hk hw
      have hl := Shape.length_le_of_check_ofKinds (by simp) hfits
      match args, hl with
      | named :: target :: rest, _ => exact ⟨_, _, .declaration hk hw hfits⟩
    · simp only [Bool.not_eq_true] at hlabel hdecl
      cases s.substituteAll_cases line with
      | inl hall =>
        obtain ⟨us, -, hus⟩ := hall
        exact ⟨s, us, .other hlabel hdecl hus⟩
      | inr hsome =>
        obtain ⟨front, t, back, us, e, rfl, -, he, -⟩ := hsome
        have hs : (resolve (lines.take i)).1 = .ok s := by rw [h]
        have hu : ∃ u, Becomes lines i t u := by
          by_cases hk : t.kind = .reference
          · obtain ⟨target, htarget, hplain⟩ := hlines.reference i _ t hi hlabel hdecl (by simp) hk
            exact ⟨_, .replaced hk htarget hplain⟩
          · exact ⟨t, .same hk⟩
        obtain ⟨u, hu⟩ := hu
        rw [(substitute_eq_ok hs).2 hu] at he
        cases he

theorem Resolvable.exists_resolve_take (hlines : Resolvable lines) (i : Nat) :
    ∃ s left, resolve (lines.take i) = (.ok s, left) := by
  induction i with
  | zero => exact ⟨{}, [], rfl⟩
  | succ i ih =>
    obtain ⟨s, left, hs⟩ := ih
    cases hi : lines[i]? with
    | none =>
      refine ⟨s, left, ?_⟩
      rw [List.take_add_one, hi]
      simpa using hs
    | some line =>
      obtain ⟨s', l, htakes⟩ := hlines.takes hi hs
      have hlt := (List.getElem?_eq_some_iff.1 hi).1
      have hlen : (lines.take i).length = i := by simp; omega
      refine ⟨s', left ++ [l], ?_⟩
      rw [List.take_add_one, hi, resolve, Scope.resolveFrom_append_ok]
      refine ⟨s, left, [l], hs, ?_, rfl⟩
      rw [hlen, Nat.zero_add]
      exact Scope.resolveFrom_cons_ok.2 ⟨s', l, [], htakes, rfl, rfl⟩

theorem resolvesTo_of_resolve (h : resolve lines = (.ok scope, left)) :
    ResolvesTo lines scope.labels left := by
  refine ⟨?_, length_resolve h, ?_, ?_⟩
  · intro name i
    rw [lookup_labels_iff h]
    constructor
    · intro hx
      obtain ⟨t, hi, hk, hn⟩ := hx
      exact ⟨t, [], hi, hk, hn⟩
    · intro hx
      obtain ⟨t, rest, hi, hk, hn⟩ := hx
      obtain ⟨rfl, -, -⟩ := label_line h hi hk
      exact ⟨t, hi, hk, hn⟩
  · intro i line hi hkept
    obtain ⟨s, s', l, -, -, hl, htakes⟩ := takes_of_resolve h hi
    cases htakes with
    | label kind fresh named => exact hl
    | declaration kind word fits => exact hl
    | other notLabel notDeclaration substituted => simp [notLabel, notDeclaration] at hkept
  · intro i line hi hlabel hdecl
    obtain ⟨s, s', l, hs, -, hl, htakes⟩ := takes_of_resolve h hi
    refine ⟨l, hl, ?_⟩
    cases htakes with
    | @label t kind fresh named =>
      rw [Line.isLabel_iff.2 ⟨t, [], rfl, kind⟩] at hlabel
      cases hlabel
    | @declaration head named target rest kind word fits =>
      rw [Line.isDeclaration_iff.2 ⟨head, _, rfl, kind, word⟩] at hdecl
      cases hdecl
    | other notLabel notDeclaration substituted =>
      simpa only [substitute_eq_ok hs] using Scope.forall₂_of_substituteAll substituted

theorem resolvable_of_resolve (h : resolve lines = (.ok scope, left)) : Resolvable lines := by
  refine ⟨?_, ?_, ?_, ?_⟩
  · intro i t rest hi hk
    obtain ⟨hrest, hnamed, -⟩ := label_line h hi hk
    exact ⟨hrest, hnamed⟩
  · intro i j t u rest rest' hi hj hk hku hname
    have hlabels := (resolvesTo_of_resolve h).labels
    have hfirst := (hlabels t.literal i).2 ⟨t, rest, hi, hk, rfl⟩
    have hsecond := (hlabels t.literal j).2 ⟨u, rest', hj, hku, hname.symm⟩
    exact Option.some.inj (hfirst.symm.trans hsecond)
  · intro i head args hi hk hw
    obtain ⟨s, s', l, -, -, -, htakes⟩ := takes_of_resolve h hi
    cases htakes with
    | label kind fresh named => simp [hk] at kind
    | declaration kind word fits => exact fits
    | other notLabel notDeclaration substituted =>
      rw [Line.isDeclaration_iff.2 ⟨head, args, rfl, hk, hw⟩] at notDeclaration
      cases notDeclaration
  · intro i line t hi hlabel hdecl ht hk
    obtain ⟨l, -, hl⟩ := (resolvesTo_of_resolve h).replaced i line hi hlabel hdecl
    have hboth :
        List.Forall₂ (fun t u => (∃ v, Becomes lines i t v) ∧ Becomes lines i t u) line l :=
      hl.imp fun t u htu => ⟨⟨u, htu⟩, htu⟩
    obtain ⟨u, hu⟩ := ((List.forall₂_and_left _ _).1 hboth).1 t ht
    cases hu with
    | same hne => exact absurd hk hne
    | replaced hk htarget hplain => exact ⟨_, htarget, hplain⟩

end Resolved

/-- Lines resolve exactly if they are resolvable, and then to what their labels and declarations
say. -/
theorem resolution_meets_specification (lines : List Line) :
    ((∃ scope left, resolve lines = (.ok scope, left)) ↔ Resolvable lines) ∧
      ∀ scope left, resolve lines = (.ok scope, left) → ResolvesTo lines scope.labels left := by
  refine ⟨⟨?_, ?_⟩, fun scope left h => resolvesTo_of_resolve h⟩
  · intro h
    obtain ⟨scope, left, h⟩ := h
    exact resolvable_of_resolve h
  · intro hlines
    simpa using hlines.exists_resolve_take lines.length

def twiceDeclared : List Line :=
  [[⟨.word, "alias", ⟨0, 0⟩⟩, ⟨.word, "x", ⟨0, 6⟩⟩, ⟨.number, "1", ⟨0, 8⟩⟩],
    [⟨.word, "push", ⟨1, 0⟩⟩, ⟨.reference, "x", ⟨1, 5⟩⟩],
    [⟨.label, "top", ⟨2, 0⟩⟩],
    [⟨.word, "alias", ⟨3, 0⟩⟩, ⟨.word, "x", ⟨3, 6⟩⟩, ⟨.string, "two", ⟨3, 8⟩⟩],
    [⟨.word, "push", ⟨4, 0⟩⟩, ⟨.reference, "x", ⟨4, 5⟩⟩]]

theorem resolution_of_twiceDeclared :
    Resolvable twiceDeclared ∧ ¬Resolvable twiceDeclared.tail ∧
      ResolvesTo twiceDeclared [("top", 2)]
        [[⟨.word, "alias", ⟨0, 0⟩⟩, ⟨.word, "x", ⟨0, 6⟩⟩, ⟨.number, "1", ⟨0, 8⟩⟩],
          [⟨.word, "push", ⟨1, 0⟩⟩, ⟨.number, "1", ⟨1, 5⟩⟩],
          [⟨.label, "top", ⟨2, 0⟩⟩],
          [⟨.word, "alias", ⟨3, 0⟩⟩, ⟨.word, "x", ⟨3, 6⟩⟩, ⟨.string, "two", ⟨3, 8⟩⟩],
          [⟨.word, "push", ⟨4, 0⟩⟩, ⟨.string, "two", ⟨4, 5⟩⟩]] := by
  obtain ⟨hiff, hresult⟩ := resolution_meets_specification twiceDeclared
  refine ⟨hiff.1 ⟨_, _, rfl⟩, ?_, hresult _ _ rfl⟩
  rw [← (resolution_meets_specification twiceDeclared.tail).1]
  intro h
  obtain ⟨scope, left, h⟩ := h
  cases h

end Stackline
