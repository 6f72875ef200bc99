import Stackline.Proofs.Resolution

/-! Resolution judges a line by its first token before aliases are replaced, execution by the token
that is there afterwards. The two judge a line alike unless it starts with a use of an alias that
stands for a label or for the word that declares aliases. -/
namespace Stackline

def Scope.headTarget? (s : Scope) : Line → Option Token
  | [] => none
  | head :: _ => if head.kind = .reference then s.aliases.lookup head.literal else none

/-- What the first token of line `i` stands for by the aliases declared above it. -/
def headTarget? (lines : List Line) (i : Nat) : Option Token :=
  match (resolve (lines.take i)).1, lines[i]? with
  | .ok s, some line => s.headTarget? line
  | _, _ => none

/-- The line is one label with a name, and the table leads from the name to its index. -/
def RecordedLabel (labels : Labels) (i : Nat) (line : Line) : Prop :=
  ∃ t, line = [t] ∧ t.kind = .label ∧ t.literal ≠ "" ∧ labels.lookup t.literal = some i

/-- Line `i` was checked as a declaration, and its alias was entered after the lines above it. -/
def RecordedAlias (lines : List Line) (i : Nat) : Prop :=
  ∃ s s' head name target rest,
    (resolve (lines.take i)).1 = .ok s ∧ (resolve (lines.take (i + 1))).1 = .ok s' ∧
    lines[i]? = some (head :: name :: target :: rest) ∧
    head.isExactly .word declarationWord = true ∧
    declarationShape.check head (name :: target :: rest) = .ok () ∧
    s'.aliases = s.aliases.declare name.literal target

namespace Scope

variable {s s' : Scope} {index : Nat} {line left : Line} {P : Token → Bool}

theorem headTarget?_eq_none (h : line.head?.any P = true)
    (href : ∀ t, t.kind = .reference → P t = false) : s.headTarget? line = none := by
  cases line with
  | nil => rfl
  | cons head args =>
    simp only [List.head?_cons, Option.any_some] at h
    have hk : head.kind ≠ .reference := by
      intro hk
      rw [href head hk] at h
      cases h
    simp [headTarget?, hk]

theorem Takes.head_any (h : s.Takes index line s' left) (hmove : ∀ t q, P (t.moveTo q) = P t)
    (href : ∀ t, t.kind = .reference → P t = false) :
    left.head?.any P = true ↔
      line.head?.any P = true ∨ ∃ t, s.headTarget? line = some t ∧ P t = true := by
  cases h with
  | @label t kind fresh named => simp [headTarget?, kind]
  | @declaration head name target rest kind word fits => simp [headTarget?, kind]
  | other notLabel notDeclaration substituted =>
    cases line with
    | nil =>
      cases substituted
      simp [headTarget?]
    | cons head args =>
      obtain ⟨u, rest, hu, -, rfl⟩ := substituteAll_cons_ok.1 substituted
      by_cases hk : head.kind = .reference
      · obtain ⟨target, ht, -, rfl⟩ := substitute_reference hk hu
        simp [headTarget?, hk, ht, hmove, href head hk]
      · rw [substitute_of_ne_reference hk] at hu
        cases hu
        simp [headTarget?, hk]

end Scope

section

variable {lines left : List Line} {scope : Scope} {i : Nat} {line l : Line}

theorem headTarget?_eq_none {P : Token → Bool} (hi : lines[i]? = some line)
    (hP : line.head?.any P = true) (href : ∀ t, t.kind = .reference → P t = false) :
    headTarget? lines i = none := by
  simp only [headTarget?, hi]
  split
  · rename_i hline
    cases hline
    exact Scope.headTarget?_eq_none hP href
  · rfl

theorem head_any_of_resolve {P : Token → Bool} (h : resolve lines = (.ok scope, left))
    (hi : lines[i]? = some line) (hl : left[i]? = some l)
    (hmove : ∀ t q, P (t.moveTo q) = P t) (href : ∀ t, t.kind = .reference → P t = false) :
    l.head?.any P = true ↔
      line.head?.any P = true ∨ ∃ t, headTarget? lines i = some t ∧ P t = true := by
  obtain ⟨s, s', l', hs, -, hl', ht⟩ := takes_of_resolve h hi
  rw [hl] at hl'
  cases hl'
  simpa only [headTarget?, hs, hi] using ht.head_any hmove href

theorem recordedLabel_iff (h : resolve lines = (.ok scope, left)) (hi : lines[i]? = some line)
    (hl : left[i]? = some l) : RecordedLabel scope.labels i l ↔ line.isLabel = true := by
  constructor
  · intro hr
    obtain ⟨t, -, -, -, ht⟩ := hr
    obtain ⟨u, hu, hk, -⟩ := (lookup_labels_iff h).1 ht
    rw [hi] at hu
    cases hu
    exact Line.isLabel_iff.2 ⟨u, [], rfl, hk⟩
  · intro hlabel
    obtain ⟨t, rest, rfl, hk⟩ := Line.isLabel_iff.1 hlabel
    obtain ⟨rfl, hnamed, ht⟩ := label_line h hi hk
    rw [hl] at ht
    cases ht
    exact ⟨t, rfl, hk, hnamed, (lookup_labels_iff h).2 ⟨t, hi, hk, rfl⟩⟩

theorem recordedAlias_iff (h : resolve lines = (.ok scope, left)) (hi : lines[i]? = some line) :
    RecordedAlias lines i ↔ line.isDeclaration = true := by
  constructor
  · intro hr
    obtain ⟨s, s', head, name, target, rest, -, -, hline, hd, -, -⟩ := hr
    rw [hi] at hline
    cases hline
    simpa [Line.isDeclaration] using hd
  · intro hdecl
    obtain ⟨s, s', l', hs, hs', -, ht⟩ := takes_of_resolve h hi
    cases ht with
    | label kind fresh named => simp [Line.isDeclaration, Token.isExactly, kind] at hdecl
    | @declaration head name target rest kind word fits =>
      exact ⟨s, _, head, name, target, rest, hs, hs', hi, by simp [kind, word], fits, rfl⟩
    | other notLabel notDeclaration substituted =>
      rw [notDeclaration] at hdecl
      cases hdecl

/-- Both passes see the same at the head of a line exactly if no alias there stands for it. -/
theorem head_any_agree_iff {P : Token → Bool} (h : resolve lines = (.ok scope, left))
    (hi : lines[i]? = some line) (hl : left[i]? = some l)
    (hmove : ∀ t q, P (t.moveTo q) = P t) (href : ∀ t, t.kind = .reference → P t = false) :
    (l.head?.any P = true ↔ line.head?.any P = true) ↔
      ¬∃ t, headTarget? lines i = some t ∧ P t = true := by
  rw [head_any_of_resolve h hi hl hmove href]
  constructor
  · intro hagree hx
    have hP := hagree.1 (Or.inr hx)
    obtain ⟨t, ht, -⟩ := hx
    rw [headTarget?_eq_none hi hP href] at ht
    cases ht
  · intro hx
    exact ⟨fun hP => hP.resolve_right hx, Or.inl⟩

theorem passes_agree_iff (h : resolve lines = (.ok scope, left)) (hl : left[i]? = some l) :
    ((l.isLabel = true ↔ RecordedLabel scope.labels i l) ↔
      ¬∃ t, headTarget? lines i = some t ∧ t.hasKind .label = true) ∧
    ((l.isDeclaration = true ↔ RecordedAlias lines i) ↔
      ¬∃ t, headTarget? lines i = some t ∧ t.isExactly .word declarationWord = true) := by
  have hlt : i < lines.length := by
    rw [← length_resolve h]
    exact (List.getElem?_eq_some_iff.1 hl).1
  have hi : lines[i]? = some lines[i] := List.getElem?_eq_getElem hlt
  constructor
  · rw [recordedLabel_iff h hi hl]
    exact head_any_agree_iff h hi hl (fun _ _ => rfl) (fun t ht => by simp [Token.hasKind, ht])
  · rw [recordedAlias_iff h hi]
    exact head_any_agree_iff h hi hl (fun _ _ => rfl) (fun t ht => by simp [Token.isExactly, ht])

end

def aliasedInstruction : List Line :=
  [[⟨.label, "top", ⟨0, 0⟩⟩],
    [⟨.word, "alias", ⟨1, 0⟩⟩, ⟨.word, "p", ⟨1, 6⟩⟩, ⟨.word, "push", ⟨1, 8⟩⟩],
    [⟨.reference, "p", ⟨2, 0⟩⟩, ⟨.number, "1", ⟨2, 3⟩⟩]]

theorem passes_agree_on_aliased_instruction :
    ∃ scope left, ∃ l : Line, resolve aliasedInstruction = (.ok scope, left) ∧ left[2]? = some l ∧
      l = [⟨.word, "push", ⟨2, 0⟩⟩, ⟨.number, "1", ⟨2, 3⟩⟩] ∧
      (l.isLabel = true ↔ RecordedLabel scope.labels 2 l) ∧
      (l.isDeclaration = true ↔ RecordedAlias aliasedInstruction 2) := by
  have hr : resolve aliasedInstruction =
      (.ok ⟨[("top", 0)], [("p", ⟨.word, "push", ⟨1, 8⟩⟩)]⟩,
        aliasedInstruction.take 2 ++
          [[⟨.word, "push", ⟨2, 0⟩⟩, ⟨.number, "1", ⟨2, 3⟩⟩]]) := rfl
  have ht : headTarget? aliasedInstruction 2 = some ⟨.word, "push", ⟨1, 8⟩⟩ := rfl
  obtain ⟨hlabel, hdecl⟩ := passes_agree_iff hr (i := 2) rfl
  refine ⟨_, _, _, hr, rfl, rfl, hlabel.2 ?_, hdecl.2 ?_⟩
  · rw [ht]
    simp [Token.hasKind]
  · rw [ht]
    simp [Token.isExactly, declarationWord]

def aliasedLabel : List Line :=
  [[⟨.word, "alias", ⟨0, 0⟩⟩, ⟨.word, "x", ⟨0, 6⟩⟩, ⟨.label, "foo", ⟨0, 8⟩⟩],
    [⟨.reference, "x", ⟨1, 0⟩⟩]]

def aliasedDeclaration : List Line :=
  [[⟨.word, "alias", ⟨0, 0⟩⟩, ⟨.word, "a", ⟨0, 6⟩⟩, ⟨.word, "alias", ⟨0, 8⟩⟩],
    [⟨.reference, "a", ⟨1, 0⟩⟩, ⟨.word, "y", ⟨1, 3⟩⟩, ⟨.number, "1", ⟨1, 5⟩⟩]]

/-- Execution walks over a label that no jump can find, and over a declaration that was never
taken in. -/
theorem passes_disagree :
    (∃ scope left l, resolve aliasedLabel = (.ok scope, left) ∧ left[1]? = some l ∧
      ¬(l.isLabel = true ↔ RecordedLabel scope.labels 1 l)) ∧
    ∃ scope left l, resolve aliasedDeclaration = (.ok scope, left) ∧ left[1]? = some l ∧
      ¬(l.isDeclaration = true ↔ RecordedAlias aliasedDeclaration 1) := by
  constructor
  · refine ⟨⟨[], [("x", ⟨.label, "foo", ⟨0, 8⟩⟩)]⟩, _, [⟨.label, "foo", ⟨1, 0⟩⟩], rfl, rfl, ?_⟩
    intro hagree
    obtain ⟨t, -, -, -, hlookup⟩ := hagree.1 rfl
    cases hlookup
  · refine ⟨⟨[], [("a", ⟨.word, "alias", ⟨0, 8⟩⟩)]⟩, _,
      [⟨.word, "alias", ⟨1, 0⟩⟩, ⟨.word, "y", ⟨1, 3⟩⟩, ⟨.number, "1", ⟨1, 5⟩⟩], rfl, rfl, ?_⟩
    intro hagree
    obtain ⟨s, s', head, name, target, rest, -, -, hline, hword, -, -⟩ := hagree.1 rfl
    cases hline
    cases hword

end Stackline
