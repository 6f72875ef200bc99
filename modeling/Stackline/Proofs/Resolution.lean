import Stackline.Resolution
import Mathlib.Tactic.Common

/-! Resolution, line by line: what a line does to the scope when it is taken in, what it is left as,
and which label table comes out at the end. -/
namespace Stackline

def Line.isLabel (line : Line) : Bool :=
  line.head?.any (·.hasKind .label)

def Line.isDeclaration (line : Line) : Bool :=
  line.head?.any (·.isExactly .word declarationWord)

namespace Line

theorem isLabel_iff {line : Line} :
    line.isLabel = true ↔ ∃ head args, line = head :: args ∧ head.kind = .label := by
  cases line <;> simp [isLabel]

theorem isDeclaration_iff {line : Line} :
    line.isDeclaration = true ↔
      ∃ head args, line = head :: args ∧ head.kind = .word ∧ head.literal = declarationWord := by
  cases line <;> simp [isDeclaration]

end Line

namespace Statement

theorem ofLine_eq_label {line : Line} {head : Token} {args : List Token} :
    ofLine line = .label head args ↔ line = head :: args ∧ head.kind = .label := by
  cases line with
  | nil => simp [ofLine]
  | cons t ts =>
    simp only [ofLine, List.cons.injEq]
    split <;> grind

theorem ofLine_eq_declaration {line : Line} {head : Token} {args : List Token} :
    ofLine line = .declaration head args ↔
      line = head :: args ∧ head.kind = .word ∧ head.literal = declarationWord := by
  cases line with
  | nil => simp [ofLine]
  | cons t ts =>
    simp only [ofLine, List.cons.injEq]
    split <;> grind

end Statement

namespace Labels

variable {labels : Labels} {t : Token}

theorem target_eq_ok {target : Nat} :
    labels.target t = .ok target ↔ labels.lookup t.literal = some target := by
  simp only [Labels.target]
  cases labels.lookup t.literal <;> simp

theorem target_eq_error {e : Error} :
    labels.target t = .error e ↔
      labels.lookup t.literal = none ∧ e = ⟨t.position, .unknownLabel t.literal⟩ := by
  simp only [Labels.target]
  cases labels.lookup t.literal <;> simp [eq_comm]

end Labels

namespace Scope

/-- What the scope becomes by a line that is taken in at `index`, and what the line is left as. -/
inductive Takes (s : Scope) (index : Nat) : Line → Scope → Line → Prop
  | label {t : Token} (kind : t.kind = .label) (fresh : s.labels.lookup t.literal = none)
      (named : t.literal ≠ "") :
      Takes s index [t] { s with labels := (t.literal, index) :: s.labels } [t]
  | declaration {head name target : Token} {rest : List Token} (kind : head.kind = .word)
      (word : head.literal = declarationWord)
      (fits : declarationShape.check head (name :: target :: rest) = .ok ()) :
      Takes s index (head :: name :: target :: rest)
        { s with aliases := s.aliases.declare name.literal target } (head :: name :: target :: rest)
  | other {line left : Line} (notLabel : line.isLabel = false)
      (notDeclaration : line.isDeclaration = false)
      (substituted : s.substituteAll line = (.ok (), left)) : Takes s index line s left

variable {s s' : Scope} {index : Nat}

theorem Takes.of_resolveLine {line left : Line} (h : s.resolveLine index line = (.ok s', left)) :
    s.Takes index line s' left := by
  simp only [resolveLine] at h
  split at h
  · rename_i head args hs
    obtain ⟨rfl, hk⟩ := Statement.ofLine_eq_label.1 hs
    simp only [defineLabel, Prod.mk.injEq] at h
    obtain ⟨hd, rfl⟩ := h
    split_ifs at hd with hdup halone hempty
    cases hd
    simp only [ne_eq, not_not] at halone
    subst halone
    exact .label hk (Option.not_isSome_iff_eq_none.1 hdup) hempty
  · rename_i head args hs
    obtain ⟨rfl, hk, hw⟩ := Statement.ofLine_eq_declaration.1 hs
    simp only [declareAlias, Prod.mk.injEq] at h
    obtain ⟨hd, rfl⟩ := h
    split at hd
    · cases hd
    · rename_i hc
      split at hd
      · cases hd
        exact .declaration hk hw hc
      · cases hd
  · rename_i hl hd
    cases hr : s.substituteAll line with
    | mk result us =>
      rw [hr] at h
      cases result with
      | error e => cases h
      | ok =>
        cases h
        refine .other ?_ ?_ hr
        · rw [Bool.eq_false_iff, ne_eq, Line.isLabel_iff]
          intro hx
          obtain ⟨head, args, hline⟩ := hx
          exact hl head args (Statement.ofLine_eq_label.2 hline)
        · rw [Bool.eq_false_iff, ne_eq, Line.isDeclaration_iff]
          intro hx
          obtain ⟨head, args, hline⟩ := hx
          exact hd head args (Statement.ofLine_eq_declaration.2 hline)

theorem resolveLine_label {head : Token} (hk : head.kind = .label) (args : List Token) :
    s.resolveLine index (head :: args) = (s.defineLabel index head args, head :: args) := by
  simp only [resolveLine, Statement.ofLine_eq_label.2 ⟨rfl, hk⟩]

theorem resolveLine_declaration {head : Token} (hk : head.kind = .word)
    (hw : head.literal = declarationWord) (args : List Token) :
    s.resolveLine index (head :: args) = (s.declareAlias head args, head :: args) := by
  simp only [resolveLine, Statement.ofLine_eq_declaration.2 ⟨rfl, hk, hw⟩]

theorem resolveLine_other {line : Line} (hl : line.isLabel = false)
    (hd : line.isDeclaration = false) :
    s.resolveLine index line =
      ((s.substituteAll line).1.map fun _ => s, (s.substituteAll line).2) := by
  simp only [resolveLine]
  split
  · rename_i hs
    rw [Line.isLabel_iff.2 ⟨_, _, Statement.ofLine_eq_label.1 hs⟩] at hl
    cases hl
  · rename_i hs
    rw [Line.isDeclaration_iff.2 ⟨_, _, Statement.ofLine_eq_declaration.1 hs⟩] at hd
    cases hd
  · rfl

theorem Takes.resolveLine_eq {line left : Line} (h : s.Takes index line s' left) :
    s.resolveLine index line = (.ok s', left) := by
  cases h with
  | label kind fresh named => simp [resolveLine_label kind, defineLabel, fresh, named]
  | declaration kind word fits => simp [resolveLine_declaration kind word, declareAlias, fits]
  | other notLabel notDeclaration substituted =>
    simp [resolveLine_other notLabel notDeclaration, substituted, Except.map]

theorem substitute_of_ne_reference {t : Token} (h : t.kind ≠ .reference) :
    s.substitute t = .ok t := by
  simp [substitute, h]

theorem substitute_reference {t u : Token} (hk : t.kind = .reference)
    (h : s.substitute t = .ok u) :
    ∃ target, s.aliases.lookup t.literal = some target ∧ target.kind ≠ .reference ∧
      u = target.moveTo t.position := by
  simp only [substitute, hk, if_true] at h
  split at h
  · cases h
  · rename_i target hl
    split_ifs at h with hr
    cases h
    exact ⟨target, hl, hr, rfl⟩

theorem substituteAll_cons_ok {t : Token} {ts us : List Token} :
    s.substituteAll (t :: ts) = (.ok (), us) ↔
      ∃ u rest, s.substitute t = .ok u ∧ s.substituteAll ts = (.ok (), rest) ∧ us = u :: rest := by
  simp only [substituteAll]
  cases ht : s.substitute t with
  | error e => simp
  | ok u =>
    cases hr : s.substituteAll ts with
    | mk result rest => simp [eq_comm]

theorem kind_ne_reference_of_substituteAll {ts us : List Token}
    (h : s.substituteAll ts = (.ok (), us)) : ∀ u ∈ us, u.kind ≠ .reference := by
  induction ts generalizing us with
  | nil =>
    cases h
    simp
  | cons t ts ih =>
    obtain ⟨u, rest, ht, hr, rfl⟩ := substituteAll_cons_ok.1 h
    intro v hv
    cases List.mem_cons.1 hv with
    | inl hhead =>
      rw [hhead]
      by_cases hk : t.kind = .reference
      · obtain ⟨target, _, hne, rfl⟩ := substitute_reference hk ht
        simpa using hne
      · rw [substitute_of_ne_reference hk] at ht
        cases ht
        exact hk
    | inr htail => exact ih hr v htail

theorem substituteAll_of_ne_reference {ts : List Token} (h : ∀ t ∈ ts, t.kind ≠ .reference) :
    s.substituteAll ts = (.ok (), ts) := by
  induction ts with
  | nil => rfl
  | cons t ts ih =>
    refine substituteAll_cons_ok.2 ⟨t, ts, substitute_of_ne_reference (h t (by simp)), ?_, rfl⟩
    exact ih fun u hu => h u (List.mem_cons_of_mem t hu)

theorem resolveFrom_cons_ok {line : Line} {lines left : List Line} :
    s.resolveFrom index (line :: lines) = (.ok s', left) ↔
      ∃ s₁ l rest, s.Takes index line s₁ l ∧ s₁.resolveFrom (index + 1) lines = (.ok s', rest) ∧
        left = l :: rest := by
  constructor
  · intro h
    simp only [resolveFrom] at h
    cases hl : s.resolveLine index line with
    | mk taken l =>
      rw [hl] at h
      cases taken with
      | error e => cases h
      | ok s₁ =>
        cases hr : s₁.resolveFrom (index + 1) lines with
        | mk result rest =>
          simp only [hr] at h
          cases h
          exact ⟨s₁, l, rest, .of_resolveLine hl, hr, rfl⟩
  · intro h
    obtain ⟨s₁, l, rest, hl, hr, rfl⟩ := h
    simp only [resolveFrom, hl.resolveLine_eq, hr]

theorem resolveFrom_append (s : Scope) (index : Nat) (front back : List Line) :
    s.resolveFrom index (front ++ back) =
      match s.resolveFrom index front with
      | (.error e, l) => (.error e, l ++ back)
      | (.ok s₁, l) =>
        ((s₁.resolveFrom (index + front.length) back).1,
          l ++ (s₁.resolveFrom (index + front.length) back).2) := by
  induction front generalizing s index with
  | nil => simp [resolveFrom]
  | cons line front ih =>
    simp only [List.cons_append, resolveFrom]
    cases hl : s.resolveLine index line with
    | mk taken l =>
      cases taken with
      | error e => rfl
      | ok s₁ =>
        simp only [ih, List.length_cons]
        rw [show index + 1 + front.length = index + (front.length + 1) by omega]
        cases hf : s₁.resolveFrom (index + 1) front with
        | mk result rest => cases result <;> rfl

theorem resolveFrom_append_ok {front back left : List Line} :
    s.resolveFrom index (front ++ back) = (.ok s', left) ↔
      ∃ s₁ l r, s.resolveFrom index front = (.ok s₁, l) ∧
        s₁.resolveFrom (index + front.length) back = (.ok s', r) ∧ left = l ++ r := by
  rw [resolveFrom_append]
  cases s.resolveFrom index front with
  | mk result l =>
    cases result with
    | error e => simp
    | ok s₁ =>
      constructor
      · intro h
        obtain ⟨hresult, rfl⟩ := Prod.mk.inj h
        exact ⟨s₁, l, _, rfl, Prod.ext hresult rfl, rfl⟩
      · intro h
        obtain ⟨_, _, r, hfront, hback, rfl⟩ := h
        cases hfront
        simp only [hback]

theorem exists_resolveLine_error {e : Error} {lines : List Line}
    (h : (s.resolveFrom index lines).1 = .error e) :
    ∃ i line s', lines[i]? = some line ∧ (s.resolveFrom index (lines.take i)).1 = .ok s' ∧
      (s'.resolveLine (index + i) line).1 = .error e := by
  induction lines generalizing s index with
  | nil => cases h
  | cons line lines ih =>
    simp only [resolveFrom] at h
    cases hl : s.resolveLine index line with
    | mk result left =>
      rw [hl] at h
      cases result with
      | error e' =>
        cases h
        exact ⟨0, line, s, rfl, rfl, congrArg Prod.fst hl⟩
      | ok s₁ =>
        obtain ⟨i, bad, s', hi, htaken, he⟩ := ih h
        rw [show index + 1 + i = index + (i + 1) by omega] at he
        refine ⟨i + 1, bad, s', hi, ?_, he⟩
        simp only [List.take_succ_cons, resolveFrom, hl]
        exact htaken

theorem length_resolveFrom {lines left : List Line}
    (h : s.resolveFrom index lines = (.ok s', left)) : left.length = lines.length := by
  induction lines generalizing s index left with
  | nil =>
    cases h
    rfl
  | cons line lines ih =>
    obtain ⟨s₁, l, rest, _, hr, rfl⟩ := resolveFrom_cons_ok.1 h
    simp [ih hr]

/-- Only a label that stands alone on its line enters the table, and no entry is hidden by it. -/
theorem Takes.lookup_labels {line left : Line} (h : s.Takes index line s' left) (name : String)
    (j : Nat) :
    s'.labels.lookup name = some j ↔ s.labels.lookup name = some j ∨
      ∃ t, j = index ∧ line = [t] ∧ t.kind = .label ∧ t.literal = name := by
  cases h with
  | @label t kind fresh named =>
    by_cases hn : name = t.literal
    · subst hn
      simp [fresh, kind, eq_comm]
    · have hn' : (name == t.literal) = false := by simpa using hn
      simp only [List.lookup_cons, hn', List.cons.injEq, and_true]
      constructor
      · exact Or.inl
      · intro h
        cases h with
        | inl hs => exact hs
        | inr hx =>
          obtain ⟨u, -, rfl, -, rfl⟩ := hx
          exact absurd rfl hn
  | declaration kind word fits => simp
  | other notLabel notDeclaration substituted =>
    constructor
    · exact Or.inl
    · intro h
      cases h with
      | inl hs => exact hs
      | inr hx =>
        obtain ⟨t, -, rfl, hk, -⟩ := hx
        rw [Line.isLabel_iff.2 ⟨t, [], rfl, hk⟩] at notLabel
        cases notLabel

theorem lookup_labels_resolveFrom {lines left : List Line}
    (h : s.resolveFrom index lines = (.ok s', left)) (name : String) (j : Nat) :
    s'.labels.lookup name = some j ↔ s.labels.lookup name = some j ∨
      ∃ k t, j = index + k ∧ lines[k]? = some [t] ∧ t.kind = .label ∧ t.literal = name := by
  induction lines generalizing s index left with
  | nil =>
    cases h
    simp
  | cons line lines ih =>
    obtain ⟨s₁, l, rest, hl, hr, rfl⟩ := resolveFrom_cons_ok.1 h
    rw [ih hr, hl.lookup_labels, or_assoc]
    apply or_congr_right
    constructor
    · intro h
      cases h with
      | inl hfirst =>
        obtain ⟨t, rfl, rfl, hk, hn⟩ := hfirst
        exact ⟨0, t, rfl, rfl, hk, hn⟩
      | inr hlater =>
        obtain ⟨k, t, rfl, ht, hk, hn⟩ := hlater
        exact ⟨k + 1, t, by omega, by simpa using ht, hk, hn⟩
    · intro h
      obtain ⟨k, t, rfl, ht, hk, hn⟩ := h
      cases k with
      | zero => exact Or.inl ⟨t, rfl, by simpa using ht, hk, hn⟩
      | succ k => exact Or.inr ⟨k, t, by omega, by simpa using ht, hk, hn⟩

section Tokens

variable {P : Token → Prop}

theorem substituteAll_forall {ts us : List Token} (hmove : ∀ t q, P t → P (t.moveTo q))
    (h : s.substituteAll ts = (.ok (), us)) (hs : ∀ entry ∈ s.aliases, P entry.2)
    (hts : ∀ t ∈ ts, P t) : ∀ u ∈ us, P u := by
  induction ts generalizing us with
  | nil =>
    cases h
    simp
  | cons t ts ih =>
    obtain ⟨u, rest, hu, hr, rfl⟩ := substituteAll_cons_ok.1 h
    refine List.forall_mem_cons.2 ⟨?_, ih hr fun t' ht' => hts t' (List.mem_cons_of_mem t ht')⟩
    by_cases hk : t.kind = .reference
    · obtain ⟨target, hl, -, rfl⟩ := substitute_reference hk hu
      obtain ⟨front, back, hcut, -⟩ := List.lookup_eq_some_iff.1 hl
      have hmem : (t.literal, target) ∈ s.aliases := by simp [hcut]
      exact hmove target t.position (hs _ hmem)
    · rw [substitute_of_ne_reference hk] at hu
      cases hu
      exact hts t List.mem_cons_self

theorem Takes.forall_tokens {line left : Line} (hmove : ∀ t q, P t → P (t.moveTo q))
    (h : s.Takes index line s' left) (hs : ∀ entry ∈ s.aliases, P entry.2)
    (hline : ∀ t ∈ line, P t) : (∀ entry ∈ s'.aliases, P entry.2) ∧ ∀ t ∈ left, P t := by
  cases h with
  | label kind fresh named => exact ⟨hs, hline⟩
  | @declaration head name target rest kind word fits =>
    refine ⟨?_, hline⟩
    intro entry hentry
    cases List.mem_cons.1 hentry with
    | inl hnew =>
      rw [hnew]
      exact hline target (by simp)
    | inr hold => exact hs entry (List.mem_filter.1 hold).1
  | other notLabel notDeclaration substituted =>
    exact ⟨hs, substituteAll_forall hmove substituted hs hline⟩

/-- Resolution makes up no tokens: what holds of all that are there, wherever they stand, holds of
all that it leaves. -/
theorem resolveFrom_forall {lines left : List Line} (hmove : ∀ t q, P t → P (t.moveTo q))
    (h : s.resolveFrom index lines = (.ok s', left)) (hs : ∀ entry ∈ s.aliases, P entry.2)
    (hlines : ∀ line ∈ lines, ∀ t ∈ line, P t) : ∀ l ∈ left, ∀ t ∈ l, P t := by
  induction lines generalizing s index left with
  | nil =>
    cases h
    simp
  | cons line lines ih =>
    obtain ⟨s₁, l, rest, hl, hr, rfl⟩ := resolveFrom_cons_ok.1 h
    obtain ⟨hfirst, hrest⟩ := List.forall_mem_cons.1 hlines
    obtain ⟨hs₁, hleft⟩ := hl.forall_tokens hmove hs hfirst
    exact List.forall_mem_cons.2 ⟨hleft, ih hr hs₁ hrest⟩

end Tokens
end Scope

section Resolved

variable {lines left : List Line} {scope : Scope}

theorem takes_of_resolve (h : resolve lines = (.ok scope, left)) {i : Nat} {line : Line}
    (hi : lines[i]? = some line) :
    ∃ s s' l, (resolve (lines.take i)).1 = .ok s ∧ (resolve (lines.take (i + 1))).1 = .ok s' ∧
      left[i]? = some l ∧ s.Takes i line s' l := by
  obtain ⟨hlt, rfl⟩ := List.getElem?_eq_some_iff.1 hi
  have hcut : lines = lines.take i ++ lines[i] :: lines.drop (i + 1) := by simp
  have hlen : (lines.take i).length = i := by simp; omega
  rw [resolve, hcut, Scope.resolveFrom_append_ok] at h
  obtain ⟨s, l, r, hf, hb, rfl⟩ := h
  obtain ⟨s', l', rest, ht, _, rfl⟩ := Scope.resolveFrom_cons_ok.1 hb
  rw [hlen, Nat.zero_add] at ht
  have hll : l.length = i := by rw [Scope.length_resolveFrom hf, hlen]
  refine ⟨s, s', l', congrArg Prod.fst hf, ?_, by simp [← hll], ht⟩
  -- What is known after line `i` is what the program that ends with this line comes to.
  have hnext : ({} : Scope).resolveFrom 0 (lines.take i ++ [lines[i]]) = (.ok s', l ++ [l']) := by
    rw [Scope.resolveFrom_append_ok]
    refine ⟨s, l, [l'], hf, ?_, rfl⟩
    rw [hlen, Nat.zero_add, Scope.resolveFrom_cons_ok]
    exact ⟨s', l', [], ht, rfl, rfl⟩
  rw [List.take_add_one, List.getElem?_eq_getElem hlt]
  exact congrArg Prod.fst hnext

theorem length_resolve (h : resolve lines = (.ok scope, left)) : left.length = lines.length :=
  Scope.length_resolveFrom h

/-- The label table of a resolved program holds its labels and nothing else. -/
theorem lookup_labels_iff (h : resolve lines = (.ok scope, left)) {name : String} {j : Nat} :
    scope.labels.lookup name = some j ↔
      ∃ t, lines[j]? = some [t] ∧ t.kind = .label ∧ t.literal = name := by
  rw [Scope.lookup_labels_resolveFrom h]
  simp

theorem label_line (h : resolve lines = (.ok scope, left)) {i : Nat} {t : Token} {rest : List Token}
    (hi : lines[i]? = some (t :: rest)) (hk : t.kind = .label) :
    rest = [] ∧ t.literal ≠ "" ∧ left[i]? = some [t] := by
  obtain ⟨s, s', l, -, -, hl, ht⟩ := takes_of_resolve h hi
  cases ht with
  | label kind fresh named => exact ⟨rfl, named, hl⟩
  | declaration kind word fits => simp [hk] at kind
  | other notLabel notDeclaration substituted =>
    rw [Line.isLabel_iff.2 ⟨t, rest, rfl, hk⟩] at notLabel
    cases notLabel

end Resolved
end Stackline
