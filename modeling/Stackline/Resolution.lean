import Stackline.Shape
import Stackline.Statement

/-! The pass before execution. It walks over the lines once, in order: labels and aliases are
recorded, and every use of an alias is replaced by what was declared for it further up. -/
namespace Stackline

abbrev Labels := List (String × Nat)

def Labels.target (labels : Labels) (t : Token) : Except Error Nat :=
  match labels.lookup t.literal with
  | some line => .ok line
  | none => .error ⟨t.position, .unknownLabel t.literal⟩

/-- Alias names and the tokens they stand for; a name occurs once. -/
abbrev Aliases := List (String × Token)

def Aliases.declare (aliases : Aliases) (name : String) (target : Token) : Aliases :=
  (name, target) :: aliases.filter fun entry => entry.1 != name

structure Scope where
  labels : Labels := []
  aliases : Aliases := []
  deriving DecidableEq, Inhabited

def declarationShape : Shape :=
  .ofKinds [[.word], [.number, .string, .word, .label, .directive, .reference]]

namespace Scope

def defineLabel (s : Scope) (line : Nat) (head : Token) (args : List Token) : Except Error Scope :=
  if (s.labels.lookup head.literal).isSome then
    .error ⟨head.position, .labelAlreadyDefined head.literal⟩
  else if args ≠ [] then .error ⟨head.position, .labelNotAlone⟩
  else if head.literal = "" then .error ⟨head.position, .emptyLabel⟩
  else .ok { s with labels := (head.literal, line) :: s.labels }

def declareAlias (s : Scope) (head : Token) (args : List Token) : Except Error Scope :=
  match declarationShape.check head args with
  | .error e => .error e
  | .ok () =>
    match args with
    | name :: target :: _ => .ok { s with aliases := s.aliases.declare name.literal target }
    | _ => .error ⟨head.position, .internal .missingArgument⟩

/-- What a token stands for: itself, unless it refers to an alias. -/
def substitute (s : Scope) (t : Token) : Except Error Token :=
  if t.kind = .reference then
    match s.aliases.lookup t.literal with
    | none => .error ⟨t.position, .unknownAlias t.literal⟩
    | some target =>
      if target.kind = .reference then .error ⟨t.position, .aliasChain t.literal⟩
      else .ok (target.moveTo t.position)
  else .ok t

/-- Substitutes from the left, up to the first token for which that fails. -/
def substituteAll (s : Scope) : List Token → Except Error Unit × List Token
  | [] => (.ok (), [])
  | t :: ts =>
    match s.substitute t with
    | .error e => (.error e, t :: ts)
    | .ok u =>
      let (result, us) := s.substituteAll ts
      (result, u :: us)

def resolveLine (s : Scope) (index : Nat) (line : Line) : Except Error Scope × Line :=
  match Statement.ofLine line with
  | .label head args => (s.defineLabel index head args, line)
  | .declaration head args => (s.declareAlias head args, line)
  | _ =>
    let (result, tokens) := s.substituteAll line
    (result.map fun _ => s, tokens)

/-- Takes in lines from the given index on. After a failure the other lines stay as they are. -/
def resolveFrom (s : Scope) (index : Nat) : List Line → Except Error Scope × List Line
  | [] => (.ok s, [])
  | line :: lines =>
    match s.resolveLine index line with
    | (.error e, left) => (.error e, left :: lines)
    | (.ok s', left) =>
      let (result, rest) := s'.resolveFrom (index + 1) lines
      (result, left :: rest)

end Scope

def resolve (lines : List Line) : Except Error Scope × List Line :=
  ({} : Scope).resolveFrom 0 lines

structure Program where
  lines : Array Line
  labels : Labels
  deriving DecidableEq, Inhabited

def Program.ofLines (lines : List Line) : Except Error Program :=
  match resolve lines with
  | (.error e, _) => .error e
  | (.ok scope, left) => .ok ⟨left.toArray, scope.labels⟩

end Stackline
