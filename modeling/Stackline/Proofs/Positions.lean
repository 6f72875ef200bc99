import Stackline.Proofs.ControlFlow
import Stackline.Proofs.Errors
import Stackline.Proofs.Outcomes
import Stackline.Proofs.UnreadableLines

/-! Where errors are told to be. A token stands on its line, resolution gives the place of a token
to what it puts there instead, and every complaint is about a place where a token stands; so an
error leads its reader to a character of the text. -/
namespace Stackline

/-- The text has a line of that number, and the line a character at that column. -/
def Position.IsIn (p : Position) (text : String) : Prop :=
  ∃ cs, (Text.lines text.toList)[p.line]? = some cs ∧ p.column < cs.length

def Line.positions (line : Line) : List Position :=
  line.map Token.position

section Reading

theorem Lexeme.offset_lt {cs : List Char} {offset : Nat} {cause : Cause}
    (h : read cs = bad offset cause) : offset < cs.length := by
  cases unreadable_of_read h with
  | illegal cut | unclosed cut | dangling cut => simp [cut]
  | escape cut =>
    simp only [cut, List.length_cons, List.length_append]
    omega

namespace Line

/-- The places that reading a line tells of: where its tokens are, or where it cannot be read. -/
def Tells : Except Error Line → Position → Prop
  | .error e, p => p = e.position
  | .ok tokens, p => p ∈ tokens.positions

theorem position_of_readFrom {line column : Nat} {cs : List Char} {p : Position}
    (h : Tells (readFrom line column cs) p) : p.line = line ∧ p.column < column + cs.length := by
  fun_induction readFrom line column cs with
  | case1 => cases h
  | case2 column cs rest hread hlt ih =>
    obtain ⟨hline, hcolumn⟩ := ih h
    exact ⟨hline, by omega⟩
  | case3 column cs kind literal width rest hread hlt ih =>
    have hwidth : width + rest.length = cs.length := by
      have hfront := hread ▸ Lexeme.front_read cs
      cases hfront with
      | token cut spells maximal => rw [cut, List.length_append]
    -- The place is that of the token just read, or one told of by what follows it.
    have hplace : p = ⟨line, column⟩ ∨ Tells (readFrom line (column + width) rest) p := by
      cases hr : readFrom line (column + width) rest with
      | error e =>
        rw [hr] at h
        exact Or.inr h
      | ok tokens =>
        rw [hr] at h
        exact List.mem_cons.1 h
    cases hplace with
    | inl hhere =>
      subst hhere
      exact ⟨rfl, by simp only; omega⟩
    | inr hlater =>
      obtain ⟨hline, hcolumn⟩ := ih hlater
      exact ⟨hline, by omega⟩
  | case4 column cs offset cause hread =>
    have hlt := Lexeme.offset_lt hread
    cases h
    exact ⟨rfl, by simp only; omega⟩

theorem position_of_ofChars {n : Nat} {cs : List Char} {p : Position}
    (h : Tells (ofChars n cs) p) : p.line = n ∧ p.column < cs.length := by
  obtain ⟨hline, hcolumn⟩ := position_of_readFrom h
  have hle := (List.takeWhile_prefix (l := cs) (· != '\n')).length_le
  exact ⟨hline, by omega⟩

theorem isIn_of_ofText_error {text : String} {e : Error} (h : ofText text = .error e) :
    e.position.IsIn text := by
  obtain ⟨front, cs, back, -, hcut, -, he⟩ := readAll_eq_error.1 h
  have hplace : Tells (ofChars (0 + front.length) cs) e.position := by
    rw [he]
    rfl
  obtain ⟨hline, hcolumn⟩ := position_of_ofChars hplace
  rw [Nat.zero_add] at hline
  exact ⟨cs, by simp [hline, hcut], hcolumn⟩

theorem isIn_of_ofText {text : String} {lines : List Line} (h : ofText text = .ok lines) {i : Nat}
    {line : Line} (hi : lines[i]? = some line) {p : Position} (hp : p ∈ line.positions) :
    p.line = i ∧ p.IsIn text := by
  obtain ⟨cs, hcs, htokens⟩ := ofChars_of_readAll h hi
  have hplace : Tells (ofChars (0 + i) cs) p := by
    rw [htokens]
    exact hp
  obtain ⟨hline, hcolumn⟩ := position_of_ofChars hplace
  rw [Nat.zero_add] at hline
  exact ⟨hline, cs, by rw [hline, hcs], hcolumn⟩

end Line
end Reading

section Checks

variable {e : Error}

theorem Slot.position_of_check_error {s : Slot} {t : Token} (h : s.check t = .error e) :
    e.position = t.position := by
  simp only [check] at h
  split_ifs at h <;> cases h <;> rfl

theorem Shape.position_of_check_error {s : Shape} {head : Token} {args : List Token}
    (h : s.check head args = .error e) : e.position ∈ Line.positions (head :: args) := by
  have hlast : (args.getLastD head).position ∈ Line.positions (head :: args) :=
    List.mem_map_of_mem List.getLastD_mem_cons
  have harg {t : Token} (ht : t ∈ args) : t.position ∈ Line.positions (head :: args) :=
    List.mem_map_of_mem (List.mem_cons_of_mem head ht)
  cases check_error_cases h with
  | inl hslot =>
    obtain ⟨slot, t, ht, he⟩ := hslot
    rw [Slot.position_of_check_error he]
    cases List.mem_cons.1 ht with
    | inl hend =>
      -- The end of a line is told to be where its last token is.
      rw [hend]
      exact hlast
    | inr hmem => exact harg hmem
  | inr htrailing =>
    obtain ⟨kinds, t, ht, rfl⟩ := htrailing
    exact harg ht

end Checks

namespace Scope

variable {s : Scope} {e : Error}

theorem substitute_position (t : Token) :
    match s.substitute t with
    | .error e => e.position = t.position
    | .ok u => u.position = t.position := by
  simp only [substitute]
  by_cases hk : t.kind = .reference
  · simp only [hk, if_true]
    cases s.aliases.lookup t.literal with
    | none => rfl
    | some target => by_cases hr : target.kind = .reference <;> simp [hr]
  · simp [hk]

theorem positions_substituteAll (ts : List Token) :
    Line.positions (s.substituteAll ts).2 = Line.positions ts := by
  induction ts with
  | nil => rfl
  | cons t ts ih =>
    have hplace := s.substitute_position t
    simp only [substituteAll]
    cases hs : s.substitute t with
    | error e => rfl
    | ok u =>
      rw [hs] at hplace
      exact congrArg₂ List.cons hplace ih

theorem position_of_substituteAll_error {ts : List Token} (h : (s.substituteAll ts).1 = .error e) :
    e.position ∈ Line.positions ts := by
  induction ts with
  | nil => cases h
  | cons t ts ih =>
    have hplace := s.substitute_position t
    simp only [substituteAll] at h
    cases hs : s.substitute t with
    | error e' =>
      rw [hs] at h hplace
      cases h
      exact List.mem_cons.2 (Or.inl hplace)
    | ok u =>
      rw [hs] at h
      exact List.mem_cons_of_mem _ (ih h)

theorem positions_resolveLine (index : Nat) (line : Line) :
    (s.resolveLine index line).2.positions = line.positions := by
  simp only [resolveLine]
  split
  · rfl
  · rfl
  · exact positions_substituteAll line

theorem position_of_resolveLine_error {index : Nat} {line : Line}
    (h : (s.resolveLine index line).1 = .error e) : e.position ∈ line.positions := by
  simp only [resolveLine] at h
  split at h
  · rename_i head args hs
    obtain ⟨rfl, -⟩ := Statement.ofLine_eq_label.1 hs
    simp only [defineLabel] at h
    split_ifs at h <;> cases h <;> exact List.mem_cons_self
  · rename_i head args hs
    obtain ⟨rfl, -⟩ := Statement.ofLine_eq_declaration.1 hs
    exact Shape.position_of_check_error (declareAlias_error h)
  · cases hr : (s.substituteAll line).1 with
    | error e' =>
      rw [hr] at h
      cases h
      exact position_of_substituteAll_error hr
    | ok =>
      rw [hr] at h
      cases h

theorem positions_resolveFrom (index : Nat) (lines : List Line) :
    (s.resolveFrom index lines).2.map Line.positions = lines.map Line.positions := by
  induction lines generalizing s index with
  | nil => rfl
  | cons line lines ih =>
    have hline := s.positions_resolveLine index line
    simp only [resolveFrom]
    cases hl : s.resolveLine index line with
    | mk result left =>
      rw [hl] at hline
      cases result with
      | error e => exact congrArg (List.cons · _) hline
      | ok s' => exact congrArg₂ List.cons hline (ih (index + 1))

end Scope

theorem Program.exists_resolveLine_error {lines : List Line} {e : Error}
    (h : Program.ofLines lines = .error e) :
    ∃ i line scope, lines[i]? = some line ∧ (resolve (lines.take i)).1 = .ok scope ∧
      (scope.resolveLine i line).1 = .error e := by
  have hr : (resolve lines).1 = .error e := by
    simp only [Program.ofLines] at h
    split at h
    · rename_i hr
      cases h
      rw [hr]
    · cases h
  obtain ⟨i, line, scope, hi, hscope, he⟩ := Scope.exists_resolveLine_error hr
  rw [Nat.zero_add] at he
  exact ⟨i, line, scope, hi, hscope, he⟩

theorem Program.positions_lines {lines : List Line} {p : Program}
    (h : Program.ofLines lines = .ok p) {i : Nat} {line : Line} (hi : p.lines[i]? = some line) :
    ∃ before, lines[i]? = some before ∧ line.positions = before.positions := by
  obtain ⟨scope, left, hr, rfl⟩ := Program.exists_resolve h
  have hall := ({} : Scope).positions_resolveFrom 0 lines
  rw [show ({} : Scope).resolveFrom 0 lines = _ from hr] at hall
  have hline := congrArg (·[i]?) hall
  rw [List.getElem?_toArray] at hi
  simp only [List.getElem?_map, hi, Option.map_some] at hline
  obtain ⟨before, hbefore, hsame⟩ := Option.map_eq_some_iff.1 hline.symm
  exact ⟨before, hbefore, hsame.symm⟩

section Execution

variable {σ : Type} [Output σ] {e : Error}

theorem Instruction.Effect.position_of_error {i : Instruction} {labels : Labels} {head : Token}
    {args : List Token} {stack after : Stack} {output left : σ}
    (h : i.Effect labels head args stack output (.error e) after left) :
    e.position ∈ Line.positions (head :: args) := by
  have hhead : head.position ∈ Line.positions (head :: args) := List.mem_cons_self
  cases h with
  | unreadable hargs he =>
    subst hargs
    rw [Token.operand_error he]
    simp [Line.positions]
  | lost hargs hpop he =>
    subst hargs
    rw [Labels.target_error he]
    simp [Line.positions]
  | noValue hi he =>
    rw [Stack.pop_error he]
    exact hhead
  | noPair hi he =>
    rw [Stack.popPair_error he]
    exact hhead
  | refused hpop hout => exact hhead
  | undefined hpop hv => exact hhead
  | incomparable hargs hpop ht hc => exact hhead

theorem Machine.position_of_step_error {m m' : Machine σ} {labels : Labels} {line : Line}
    (h : m.step labels line = (.error e, m')) : e.position ∈ line.positions := by
  cases step_effect h with
  | unfitDirective hk hearly hd hs => exact Shape.position_of_check_error hs
  | unfitInstruction hk hw hi hs => exact Shape.position_of_check_error hs
  | executed hk hw hi hs he => exact he.position_of_error
  | late hk hlate => exact List.mem_cons_self
  | unknownDirective hk hearly hd => exact List.mem_cons_self
  | unknownInstruction hk hw hi => exact List.mem_cons_self
  | stray hk => exact List.mem_cons_self

theorem Machine.position_of_run_failed {lines : List Line} {p : Program}
    (hp : Program.ofLines lines = .ok p) {m m' : Machine σ} {fuel : Nat}
    (h : run p fuel m = (.failed e, m')) :
    ∃ line, lines[m'.pc]? = some line ∧ e.position ∈ line.positions := by
  obtain ⟨m₁, line, -, hline, hs⟩ := run_failed h
  obtain ⟨before, hbefore, hsame⟩ := Program.positions_lines hp hline
  have hplace := position_of_step_error hs
  rw [hsame] at hplace
  rw [pc_of_step hs]
  exact ⟨before, hbefore, hplace⟩

end Execution

/-- The place of an error is one of the text. Once the text is read, it is moreover the place of a
token that was read there: on the line that could not be resolved, or on the line where the machine
stopped. -/
theorem error_points_into_text {σ : Type} [Output σ] {fuel : Nat} {text : String} {output left : σ}
    {e : Error} (h : runText fuel text output = (.failed e, left)) :
    e.position.IsIn text ∧
      ∀ lines, Line.ofText text = .ok lines →
        ∃ line, lines[e.position.line]? = some line ∧ e.position ∈ line.positions ∧
          ((Program.ofLines lines = .error e ∧
              ∃ scope, (resolve (lines.take e.position.line)).1 = .ok scope ∧
                (scope.resolveLine e.position.line line).1 = .error e) ∨
            ∃ p m, Program.ofLines lines = .ok p ∧
              Machine.run p fuel { output } = (.failed e, m) ∧ m.pc = e.position.line) := by
  simp only [runText_eq, Program.ofText] at h
  cases ho : Line.ofText text with
  | error e' =>
    rw [ho] at h
    cases h
    exact ⟨Line.isIn_of_ofText_error ho, by simp⟩
  | ok lines =>
    rw [ho] at h
    simp only [Except.ok.injEq, forall_eq']
    cases hp : Program.ofLines lines with
    | error e' =>
      simp only [hp] at h
      cases h
      obtain ⟨i, line, scope, hi, hscope, he⟩ := Program.exists_resolveLine_error hp
      have hplace := Scope.position_of_resolveLine_error he
      obtain ⟨rfl, hisIn⟩ := Line.isIn_of_ofText ho hi hplace
      exact ⟨hisIn, line, hi, hplace, Or.inl ⟨rfl, scope, hscope, he⟩⟩
    | ok p =>
      simp only [hp] at h
      obtain ⟨m, hrun, -⟩ := Program.run_eq_failed.1 h
      obtain ⟨line, hi, hplace⟩ := Machine.position_of_run_failed hp hrun
      obtain ⟨hpc, hisIn⟩ := Line.isIn_of_ofText ho hi hplace
      rw [← hpc] at hi
      exact ⟨hisIn, line, hi, hplace, Or.inr ⟨p, m, rfl, hrun, hpc.symm⟩⟩

def overflowing : String :=
  "alias big 99999999999999999999\n\npush $big\n"

theorem error_points_into_overflowing :
    runText 3 overflowing ({} : PrintedValues) =
        (.failed ⟨⟨2, 5⟩, .integerOutOfRange "99999999999999999999"⟩, {}) ∧
      (⟨2, 5⟩ : Position).IsIn overflowing ∧
      ∃ lines line, Line.ofText overflowing = .ok lines ∧ lines[2]? = some line ∧
        ⟨2, 5⟩ ∈ line.positions := by
  have hrun : runText 3 overflowing ({} : PrintedValues) =
      (.failed ⟨⟨2, 5⟩, .integerOutOfRange "99999999999999999999"⟩, {}) := by decide +kernel
  have hread : Line.ofText overflowing = .ok
      [[⟨.word, "alias", ⟨0, 0⟩⟩, ⟨.word, "big", ⟨0, 6⟩⟩,
          ⟨.number, "99999999999999999999", ⟨0, 10⟩⟩],
        [], [⟨.word, "push", ⟨2, 0⟩⟩, ⟨.reference, "big", ⟨2, 5⟩⟩]] := by decide +kernel
  obtain ⟨hisIn, htoken⟩ := error_points_into_text hrun
  obtain ⟨line, hline, hplace, -⟩ := htoken _ hread
  exact ⟨hrun, hisIn, _, line, hread, hline, hplace⟩

end Stackline
