import Stackline.Proofs.Grammar
import Stackline.Proofs.Resolution
import Stackline.Proofs.Steps

/-! Lines can be given other numbers. When labels lead to the new numbers and tokens and errors tell
them, everything else stays as it is: checks, resolution and steps do not look at numbers of lines,
they only pass them on. -/
namespace Stackline

section

variable (g : Nat → Nat)

def Position.renumber (p : Position) : Position :=
  ⟨g p.line, p.column⟩

def Token.renumber (t : Token) : Token :=
  t.moveTo (t.position.renumber g)

def Line.renumber (line : Line) : Line :=
  line.map (Token.renumber g)

def Error.renumber (e : Error) : Error :=
  ⟨e.position.renumber g, e.cause⟩

def Flow.renumber : Flow → Flow
  | .next => .next
  | .jump target => .jump (g target)

def Labels.renumber (labels : Labels) : Labels :=
  labels.map fun entry => (entry.1, g entry.2)

def Aliases.renumber (aliases : Aliases) : Aliases :=
  aliases.map fun entry => (entry.1, entry.2.renumber g)

def Scope.renumber (s : Scope) : Scope :=
  ⟨s.labels.renumber g, s.aliases.renumber g⟩

/-- What a computation comes to if the numbers are other ones, told by what its value comes to. -/
def renumbered {α β : Type} (onValue : α → β) : Except Error α → Except Error β
  | .error e => .error (e.renumber g)
  | .ok a => .ok (onValue a)

end

variable {g : Nat → Nat}

@[simp] theorem Token.kind_renumber (t : Token) : (t.renumber g).kind = t.kind := rfl

@[simp] theorem Token.literal_renumber (t : Token) : (t.renumber g).literal = t.literal := rfl

@[simp] theorem Token.position_renumber (t : Token) :
    (t.renumber g).position = t.position.renumber g := rfl

@[simp] theorem renumbered_error {α β : Type} (onValue : α → β) (e : Error) :
    renumbered g onValue (.error e) = .error (e.renumber g) := rfl

@[simp] theorem renumbered_ok {α β : Type} (onValue : α → β) (a : α) :
    renumbered g onValue (.ok a) = .ok (onValue a) := rfl

theorem lookup_map_snd {α β : Type} (f : α → β) (entries : List (String × α)) (name : String) :
    (entries.map fun entry => (entry.1, f entry.2)).lookup name = (entries.lookup name).map f := by
  induction entries with
  | nil => rfl
  | cons entry entries ih =>
    obtain ⟨key, a⟩ := entry
    by_cases hk : name == key
    · simp [List.lookup_cons, hk]
    · simp [List.lookup_cons, hk, ih]

@[simp] theorem Labels.lookup_renumber (labels : Labels) (name : String) :
    (labels.renumber g).lookup name = (labels.lookup name).map g :=
  lookup_map_snd g labels name

@[simp] theorem Aliases.lookup_renumber (aliases : Aliases) (name : String) :
    (aliases.renumber g).lookup name = (aliases.lookup name).map (Token.renumber g) :=
  lookup_map_snd (Token.renumber g) aliases name

theorem Aliases.declare_renumber (aliases : Aliases) (name : String) (target : Token) :
    (aliases.renumber g).declare name (target.renumber g) =
      (aliases.declare name target).renumber g := by
  simp only [declare, renumber, List.map_cons, List.filter_map]
  rfl

section Checks

theorem Slot.check_renumber (s : Slot) (t : Token) :
    s.check (t.renumber g) = renumbered g id (s.check t) := by
  simp only [check, Token.kind_renumber, Token.literal_renumber, Token.position_renumber]
  simp only [apply_ite (renumbered g id), renumbered_ok, renumbered_error]
  rfl

namespace Shape

theorem checkSlots_renumber (eol : Token) (slots : List Slot) (args : List Token) :
    checkSlots (eol.renumber g) slots (args.map (Token.renumber g)) =
      renumbered g id (checkSlots eol slots args) := by
  induction slots generalizing args with
  | nil => rfl
  | cons slot slots ih =>
    have hhead : (args.map (Token.renumber g)).headD (eol.renumber g) =
        (args.headD eol).renumber g := by
      cases args <;> rfl
    simp only [checkSlots, hhead, Slot.check_renumber, ← List.map_tail, ih]
    cases slot.check (args.headD eol) <;> rfl

theorem checkTrailing_renumber (kinds : List Kind) (args : List Token) :
    checkTrailing kinds (args.map (Token.renumber g)) =
      renumbered g id (checkTrailing kinds args) := by
  simp only [checkTrailing, List.find?_map, Function.comp_def, Token.kind_renumber]
  cases args.find? fun t => !kinds.contains t.kind <;> rfl

theorem check_renumber (s : Shape) (head : Token) (args : List Token) :
    s.check (head.renumber g) (args.map (Token.renumber g)) =
      renumbered g id (s.check head args) := by
  have hlast : Token.endOfLine ((args.map (Token.renumber g)).getLastD (head.renumber g)).position =
      (Token.endOfLine (args.getLastD head).position).renumber g := by
    rw [List.getLastD_map]
    rfl
  simp only [check, hlast, checkSlots_renumber, ← List.map_drop]
  cases checkSlots (Token.endOfLine (args.getLastD head).position) s.required args with
  | error e => rfl
  | ok =>
    cases s.trailing with
    | none => rfl
    | some kinds => exact checkTrailing_renumber kinds _

end Shape
end Checks

section Steps

theorem Token.operand_renumber (t : Token) :
    (t.renumber g).operand = renumbered g id t.operand := by
  simp only [operand, kind_renumber, literal_renumber, position_renumber]
  cases t.kind with
  | number => cases Value.readInt? t.literal <;> rfl
  | _ => rfl

theorem Stack.pop_renumber (s : Stack) (p : Position) :
    s.pop (p.renumber g) = renumbered g id (s.pop p) := by
  simp only [pop]
  cases s.items <;> rfl

theorem Stack.popPair_renumber (s : Stack) (p : Position) :
    s.popPair (p.renumber g) = renumbered g id (s.popPair p) := by
  simp only [popPair]
  cases s.items with
  | nil => rfl
  | cons v items => cases items <;> rfl

/-- One table leads where another does, in the new numbers, for all names that the result needs. A
name that is in neither is needed only to say so. -/
structure Labels.LeadsAlike (g : Nat → Nat) (labels labels' : Labels) (result : Except Error Flow) :
    Prop where
  found : ∀ name target, labels.lookup name = some target → labels'.lookup name = some (g target)
  missing : ∀ e name, result = .error e → e.cause = .unknownLabel name →
    labels.lookup name = none → labels'.lookup name = none

theorem Labels.leadsAlike_renumber (labels : Labels) (result : Except Error Flow) :
    LeadsAlike g labels (labels.renumber g) result :=
  ⟨fun name target h => by simp [h], fun e name _ _ h => by simp [h]⟩

variable {σ : Type} [Output σ] {labels labels' : Labels}

theorem Instruction.Effect.renumber {i : Instruction} {head : Token} {args : List Token}
    {stack after : Stack} {output left : σ} {result : Except Error Flow}
    (h : i.Effect labels head args stack output result after left)
    (hl : Labels.LeadsAlike g labels labels' result) :
    i.Effect labels' (head.renumber g) (args.map (Token.renumber g)) stack output
      (renumbered g (Flow.renumber g) result) after left := by
  have hpop {x} (h : stack.pop head.position = x) :
      stack.pop (head.renumber g).position = renumbered g id x := by
    rw [Token.position_renumber, Stack.pop_renumber, h]
  have hpair {x} (h : stack.popPair head.position = x) :
      stack.popPair (head.renumber g).position = renumbered g id x := by
    rw [Token.position_renumber, Stack.popPair_renumber, h]
  have htarget {arg : Token} {target : Nat} (h : labels.target arg = .ok target) :
      labels'.target (arg.renumber g) = .ok (g target) :=
    Labels.target_eq_ok.2 (hl.found arg.literal target (Labels.target_eq_ok.1 h))
  cases h with
  | pushed hargs hv =>
    subst hargs
    exact .pushed rfl (by rw [Token.operand_renumber, hv]; rfl)
  | unreadable hargs he =>
    subst hargs
    exact .unreadable rfl (by rw [Token.operand_renumber, he]; rfl)
  | printed hp hout => exact .printed (hpop hp) hout
  | refused hp hout => exact .refused (hpop hp) hout
  | cleared => exact .cleared
  | doubled hp => exact .doubled (hpop hp)
  | computed hp hv => exact .computed (hpair hp) hv
  | undefined hp hv => exact .undefined (hpair hp) hv
  | @lost c arg rest a b below e hargs hp he =>
    subst hargs
    obtain ⟨hnone, rfl⟩ := Labels.target_eq_error.1 he
    exact .lost rfl (hpair hp) (Labels.target_eq_error.2 ⟨hl.missing _ _ rfl rfl hnone, rfl⟩)
  | incomparable hargs hp ht hc =>
    subst hargs
    exact .incomparable rfl (hpair hp) (htarget ht) hc
  | jumped hargs hp ht hc =>
    subst hargs
    exact .jumped rfl (hpair hp) (htarget ht) hc
  | passed hargs hp ht hc =>
    subst hargs
    exact .passed rfl (hpair hp) (htarget ht) hc
  | noValue hi he => exact .noValue hi (hpop he)
  | noPair hi he => exact .noPair hi (hpair he)

/-- A step knows nothing of the line it is on but its tokens, so it can be taken at line `k` as
well. -/
theorem Machine.StepEffect.renumber {m m' : Machine σ} {line : Line} {result : Except Error Flow}
    (h : m.StepEffect labels line result m') (hl : Labels.LeadsAlike g labels labels' result)
    (k : Nat) :
    ({ m with pc := k } : Machine σ).StepEffect labels' (line.renumber g)
      (renumbered g (Flow.renumber g) result) { m' with pc := k } := by
  have hcheck {s : Shape} {head : Token} {args : List Token} {x} (h : s.check head args = x) :
      s.check (head.renumber g) (args.map (Token.renumber g)) = renumbered g id x := by
    rw [Shape.check_renumber, h]
  cases h with
  | blank => exact .blank
  | declaration hk hw => exact .declaration hk hw
  | label hk => exact .label hk
  | titled hk hearly hd hs => exact .titled hk hearly hd (hcheck hs)
  | late hk hlate => exact .late hk hlate
  | unknownDirective hk hearly hd => exact .unknownDirective hk hearly hd
  | unfitDirective hk hearly hd hs => exact .unfitDirective hk hearly hd (hcheck hs)
  | unknownInstruction hk hw hi => exact .unknownInstruction hk hw hi
  | unfitInstruction hk hw hi hs => exact .unfitInstruction hk hw hi (hcheck hs)
  | executed hk hw hi hs he => exact .executed hk hw hi (hcheck hs) (he.renumber hl)
  | stray hk => exact .stray hk

end Steps

/-- Of `count` lines, the first at `index`, the first gets the number `index'` and each of the
others the next one. -/
def CountsOn (g : Nat → Nat) (index index' count : Nat) : Prop :=
  ∀ k < count, g (index + k) = index' + k

theorem CountsOn.cons {index index' count : Nat} (h : CountsOn g index index' (count + 1)) :
    g index = index' ∧ CountsOn g (index + 1) (index' + 1) count := by
  refine ⟨h 0 (by omega), ?_⟩
  intro k hk
  have hnext := h (k + 1) (by omega)
  rw [show index + 1 + k = index + (k + 1) by omega, hnext]
  omega

namespace Scope

variable (s : Scope)

theorem defineLabel_renumber (index : Nat) (head : Token) (args : List Token) :
    (s.renumber g).defineLabel (g index) (head.renumber g) (args.map (Token.renumber g)) =
      renumbered g (Scope.renumber g) (s.defineLabel index head args) := by
  simp only [defineLabel, renumber, Labels.lookup_renumber, Token.literal_renumber,
    Option.isSome_map, ne_eq, List.map_eq_nil_iff]
  simp only [apply_ite (renumbered g (Scope.renumber g)), renumbered_ok, renumbered_error]
  rfl

theorem declareAlias_renumber (head : Token) (args : List Token) :
    (s.renumber g).declareAlias (head.renumber g) (args.map (Token.renumber g)) =
      renumbered g (Scope.renumber g) (s.declareAlias head args) := by
  simp only [declareAlias, Shape.check_renumber]
  cases declarationShape.check head args with
  | error e => rfl
  | ok =>
    cases args with
    | nil => rfl
    | cons name args =>
      cases args with
      | nil => rfl
      | cons target rest =>
        simp only [renumbered_ok, List.map_cons, renumber, Token.literal_renumber,
          Aliases.declare_renumber]

theorem substitute_renumber (t : Token) :
    (s.renumber g).substitute (t.renumber g) =
      renumbered g (Token.renumber g) (s.substitute t) := by
  simp only [substitute, renumber, Aliases.lookup_renumber, Token.kind_renumber,
    Token.literal_renumber]
  by_cases hk : t.kind = .reference
  · simp only [hk, if_true]
    cases s.aliases.lookup t.literal with
    | none => rfl
    | some target =>
      simp only [Option.map_some, Token.kind_renumber, apply_ite (renumbered g (Token.renumber g)),
        renumbered_ok, renumbered_error]
      rfl
  · simp only [hk, if_false, renumbered_ok]

theorem substituteAll_renumber (ts : List Token) :
    (s.renumber g).substituteAll (ts.map (Token.renumber g)) =
      (renumbered g id (s.substituteAll ts).1, (s.substituteAll ts).2.map (Token.renumber g)) := by
  induction ts with
  | nil => rfl
  | cons t ts ih =>
    simp only [List.map_cons, substituteAll, substitute_renumber, ih]
    cases s.substitute t <;> rfl

theorem resolveLine_renumber (index : Nat) (line : Line) :
    (s.renumber g).resolveLine (g index) (line.renumber g) =
      (renumbered g (Scope.renumber g) (s.resolveLine index line).1,
        (s.resolveLine index line).2.renumber g) := by
  by_cases hl : line.isLabel = true
  · obtain ⟨head, args, rfl, hk⟩ := Line.isLabel_iff.1 hl
    simp only [Line.renumber, List.map_cons, resolveLine_label hk,
      resolveLine_label (show (head.renumber g).kind = .label from hk), defineLabel_renumber]
  · by_cases hd : line.isDeclaration = true
    · obtain ⟨head, args, rfl, hk, hw⟩ := Line.isDeclaration_iff.1 hd
      simp only [Line.renumber, List.map_cons, resolveLine_declaration hk hw,
        resolveLine_declaration (show (head.renumber g).kind = .word from hk) hw,
        declareAlias_renumber]
    · rw [Bool.not_eq_true] at hl hd
      have hl' : (line.renumber g).isLabel = false := by
        rw [← hl]
        cases line <;> rfl
      have hd' : (line.renumber g).isDeclaration = false := by
        rw [← hd]
        cases line <;> rfl
      rw [resolveLine_other hl hd, resolveLine_other hl' hd', Line.renumber, substituteAll_renumber]
      cases (s.substituteAll line).1 <;> rfl

theorem resolveFrom_renumber (lines : List Line) {index index' : Nat}
    (hg : CountsOn g index index' lines.length) :
    (s.renumber g).resolveFrom index' (lines.map (Line.renumber g)) =
      (renumbered g (Scope.renumber g) (s.resolveFrom index lines).1,
        (s.resolveFrom index lines).2.map (Line.renumber g)) := by
  induction lines generalizing s index index' with
  | nil => rfl
  | cons line lines ih =>
    obtain ⟨rfl, hrest⟩ := hg.cons
    simp only [List.map_cons, resolveFrom, resolveLine_renumber]
    cases hl : s.resolveLine index line with
    | mk result left =>
      cases result with
      | error e => rfl
      | ok s' => simp only [renumbered_ok, ih s' hrest, List.map_cons]

end Scope

namespace Line

theorem readFrom_renumber (line column : Nat) (cs : List Char) :
    readFrom (g line) column cs = renumbered g (Line.renumber g) (readFrom line column cs) := by
  fun_induction readFrom line column cs with
  | case1 column cs hread =>
    rw [readFrom_eq, hread]
    rfl
  | case2 column cs rest hread _ ih =>
    rw [readFrom_eq, hread]
    exact ih
  | case3 column cs kind literal width rest hread _ ih =>
    rw [readFrom_eq, hread]
    simp only [ih]
    cases readFrom line (column + width) rest <;> rfl
  | case4 column cs offset cause hread =>
    rw [readFrom_eq, hread]
    rfl

theorem ofChars_renumber (line : Nat) (cs : List Char) :
    ofChars (g line) cs = renumbered g (Line.renumber g) (ofChars line cs) :=
  readFrom_renumber line 0 _

theorem readAll_renumber (lines : List (List Char)) {index index' : Nat}
    (hg : CountsOn g index index' lines.length) :
    readAll index' lines = renumbered g (List.map (Line.renumber g)) (readAll index lines) := by
  induction lines generalizing index index' with
  | nil => rfl
  | cons line lines ih =>
    obtain ⟨rfl, hrest⟩ := hg.cons
    simp only [readAll, ofChars_renumber, ih hrest]
    cases ofChars index line with
    | error e => rfl
    | ok tokens => cases readAll (index + 1) lines <;> rfl

end Line
end Stackline
