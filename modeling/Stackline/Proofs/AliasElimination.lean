import Stackline.Interpreter
import Stackline.Proofs.Classification
import Stackline.Proofs.Runs

/-! Aliases can be written out. The lines that resolution leaves, with the declarations taken away,
are a program without aliases that resolves to itself and does what the original does. -/
namespace Stackline

def Line.withoutDeclaration (line : Line) : Line :=
  if line.isDeclaration then [] else line

def withoutDeclarations (lines : List Line) : List Line :=
  lines.map Line.withoutDeclaration

namespace Scope

variable {s s' : Scope} {index : Nat}

theorem Takes.withoutDeclaration {line left : Line} (h : s.Takes index line s' left)
    (hlabel : left.isLabel = line.isLabel) (hdecl : left.isDeclaration = line.isDeclaration) :
    Takes ⟨s.labels, []⟩ index left.withoutDeclaration ⟨s'.labels, []⟩ left.withoutDeclaration := by
  cases h with
  | @label t kind fresh named =>
    have hd : Line.isDeclaration [t] = false := by simp [Line.isDeclaration, Token.isExactly, kind]
    simp only [Line.withoutDeclaration, hd]
    exact .label kind fresh named
  | @declaration head name target rest kind word fits =>
    have hd : Line.isDeclaration (head :: name :: target :: rest) = true :=
      Line.isDeclaration_iff.2 ⟨head, _, rfl, kind, word⟩
    simp only [Line.withoutDeclaration, hd, if_true]
    exact .other rfl rfl rfl
  | other notLabel notDeclaration substituted =>
    rw [notLabel] at hlabel
    rw [notDeclaration] at hdecl
    simp only [Line.withoutDeclaration, hdecl]
    exact .other hlabel hdecl
      (substituteAll_of_ne_reference (kind_ne_reference_of_substituteAll substituted))

theorem resolveFrom_withoutDeclarations {lines left : List Line}
    (h : s.resolveFrom index lines = (.ok s', left))
    (hheads : ∀ (k : Nat) (line l : Line), lines[k]? = some line → left[k]? = some l →
      l.isLabel = line.isLabel ∧ l.isDeclaration = line.isDeclaration) :
    resolveFrom ⟨s.labels, []⟩ index (withoutDeclarations left) =
      (.ok ⟨s'.labels, []⟩, withoutDeclarations left) := by
  induction lines generalizing s index left with
  | nil =>
    cases h
    rfl
  | cons line lines ih =>
    obtain ⟨s₁, l, rest, hl, hr, rfl⟩ := resolveFrom_cons_ok.1 h
    obtain ⟨hlabel, hdecl⟩ := hheads 0 line l rfl rfl
    have hrest := ih hr fun k line' l' hk hk' => hheads (k + 1) line' l' (by simpa using hk)
      (by simpa using hk')
    exact resolveFrom_cons_ok.2 ⟨_, _, _, hl.withoutDeclaration hlabel hdecl, hrest, rfl⟩

end Scope

namespace Machine

variable {σ : Type} [Output σ]

theorem step_withoutDeclaration (m : Machine σ) (labels : Labels) (line : Line) :
    m.step labels line.withoutDeclaration = m.step labels line := by
  simp only [Line.withoutDeclaration]
  split
  · rename_i hd
    obtain ⟨head, args, rfl, hk, hw⟩ := Line.isDeclaration_iff.1 hd
    simp only [step, Statement.ofLine, hk, hw, if_true]
  · rfl

theorem advance_withoutDeclarations (left : List Line) (labels : Labels) (m : Machine σ) :
    advance ⟨(withoutDeclarations left).toArray, labels⟩ m = advance ⟨left.toArray, labels⟩ m := by
  simp only [advance, withoutDeclarations, List.getElem?_toArray, List.getElem?_map]
  cases left[m.pc]? with
  | none => rfl
  | some line => simp only [Option.map_some, step_withoutDeclaration]

end Machine

variable {lines left : List Line} {scope : Scope}

theorem head_any_eq {P : Token → Bool} (h : resolve lines = (.ok scope, left)) {k : Nat}
    {line l : Line} (hk : lines[k]? = some line) (hl : left[k]? = some l)
    (hmove : ∀ t q, P (t.moveTo q) = P t) (href : ∀ t, t.kind = .reference → P t = false)
    (hplain : ∀ t, headTarget? lines k = some t → P t = false) :
    l.head?.any P = line.head?.any P := by
  rw [Bool.eq_iff_iff, head_any_agree_iff h hk hl hmove href]
  intro hx
  obtain ⟨t, ht, hP⟩ := hx
  rw [hplain t ht] at hP
  cases hP

/-- The lines of the program, as execution sees them. No line may start with a use of an alias that
stands for a label or for the word that declares aliases: it would become one only now. -/
theorem alias_elimination (h : resolve lines = (.ok scope, left))
    (hplain : ∀ i t, headTarget? lines i = some t →
      t.hasKind .label = false ∧ t.isExactly .word declarationWord = false) :
    resolve (withoutDeclarations left) =
        (.ok ⟨scope.labels, []⟩, withoutDeclarations left) ∧
      ∀ (σ : Type) [Output σ] (fuel : Nat) (output : σ),
        runLines fuel (withoutDeclarations left) output = runLines fuel lines output := by
  have hE : resolve (withoutDeclarations left) =
      (.ok ⟨scope.labels, []⟩, withoutDeclarations left) := by
    apply Scope.resolveFrom_withoutDeclarations h
    intro k line l hk hl
    constructor
    · exact head_any_eq h hk hl (fun _ _ => rfl) (fun t ht => by simp [Token.hasKind, ht])
        fun t ht => (hplain k t ht).1
    · exact head_any_eq h hk hl (fun _ _ => rfl) (fun t ht => by simp [Token.isExactly, ht])
        fun t ht => (hplain k t ht).2
  refine ⟨hE, ?_⟩
  intro σ _ fuel output
  simp only [runLines, Program.ofLines, h, hE, Program.run]
  rw [Machine.run_congr (Machine.advance_withoutDeclarations left scope.labels)]

def redeclared : List Line :=
  [[⟨.word, "alias", ⟨0, 0⟩⟩, ⟨.word, "p", ⟨0, 6⟩⟩, ⟨.word, "push", ⟨0, 8⟩⟩],
    [⟨.reference, "p", ⟨1, 0⟩⟩, ⟨.number, "5", ⟨1, 3⟩⟩],
    [⟨.word, "alias", ⟨2, 0⟩⟩, ⟨.word, "p", ⟨2, 6⟩⟩, ⟨.word, "print", ⟨2, 8⟩⟩],
    [⟨.reference, "p", ⟨3, 0⟩⟩]]

theorem alias_elimination_of_redeclared :
    ∃ scope left, resolve redeclared = (.ok scope, left) ∧
      withoutDeclarations left =
        [[], [⟨.word, "push", ⟨1, 0⟩⟩, ⟨.number, "5", ⟨1, 3⟩⟩], [], [⟨.word, "print", ⟨3, 0⟩⟩]] ∧
      resolve (withoutDeclarations left) = (.ok ⟨scope.labels, []⟩, withoutDeclarations left) ∧
      runLines 5 (withoutDeclarations left) ({} : PrintedValues) = runLines 5 redeclared {} ∧
      runLines 5 redeclared ({} : PrintedValues) =
        (.finished ⟨none, .empty, 2⟩, ⟨#[.int 5]⟩) := by
  have hr : resolve redeclared = (.ok ⟨[], [("p", ⟨.word, "print", ⟨2, 8⟩⟩)]⟩, _) := rfl
  have hplain : ∀ i t, headTarget? redeclared i = some t →
      t.hasKind .label = false ∧ t.isExactly .word declarationWord = false := by
    intro i t ht
    match i with
    | 0 | 2 => cases ht
    | 1 | 3 =>
      cases ht
      exact ⟨rfl, rfl⟩
    | k + 4 => simp [headTarget?, redeclared] at ht
  obtain ⟨hE, hrun⟩ := alias_elimination hr hplain
  exact ⟨_, _, hr, rfl, hE, hrun PrintedValues 5 {}, rfl⟩

end Stackline
