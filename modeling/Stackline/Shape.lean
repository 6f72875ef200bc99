import Stackline.Error

/-! Shapes describe which arguments may follow the first token of a line, slot by slot. A check
passes or blames the leftmost argument that does not fit. -/
namespace Stackline

/-- What one argument may be: a token of one of the kinds, and of one of the literals if any
literals are listed. -/
structure Slot where
  kinds : List Kind
  literals : List String := []
  deriving DecidableEq, Inhabited

namespace Slot

def lineEnd : Slot :=
  ⟨[.endOfLine], []⟩

def isLineEnd (s : Slot) : Bool :=
  s.kinds == [.endOfLine]

def kindMismatch (s : Slot) (found : Kind) : Cause :=
  if s.isLineEnd then .expectedEndOfLine found
  else if found = .endOfLine then .unexpectedEndOfLine s.kinds
  else .unexpectedKind s.kinds found

def acceptsLiteral (s : Slot) (literal : String) : Bool :=
  s.isLineEnd || s.literals.isEmpty || s.literals.contains literal

def check (s : Slot) (t : Token) : Except Error Unit :=
  if s.kinds.contains t.kind then
    if s.acceptsLiteral t.literal then .ok ()
    else .error ⟨t.position, .unexpectedLiteral s.literals t.literal⟩
  else .error ⟨t.position, s.kindMismatch t.kind⟩

end Slot

/-- Slots for the first arguments and, if `trailing` lists kinds, any number of arguments of these
kinds after them. Without it the line has to end after the last slot. -/
structure Shape where
  slots : List Slot := []
  trailing : Option (List Kind) := none
  deriving DecidableEq, Inhabited

inductive ShapeMisuse where
  | slotAfterTrailing
  deriving DecidableEq, Inhabited

def ShapeMisuse.message : ShapeMisuse → String
  | slotAfterTrailing => "a trailing entry must be the last entry of a shape"

namespace Shape

def empty : Shape := {}

def ofKinds (kinds : List (List Kind)) : Shape :=
  { slots := kinds.map fun ks => { kinds := ks } }

def add (s : Shape) (slot : Slot) : Except ShapeMisuse Shape :=
  match s.trailing with
  | none => .ok { s with slots := s.slots ++ [slot] }
  | some _ => .error .slotAfterTrailing

def expect (s : Shape) (kind : Kind) : Except ShapeMisuse Shape :=
  s.add { kinds := [kind] }

def expectAny (s : Shape) (kinds : List Kind) : Except ShapeMisuse Shape :=
  s.add { kinds }

def expectLiteral (s : Shape) (kind : Kind) (literals : List String) : Except ShapeMisuse Shape :=
  s.add { kinds := [kind], literals }

def expectTrailing (s : Shape) (kinds : List Kind) : Except ShapeMisuse Shape :=
  match s.trailing with
  | none => .ok { s with trailing := some kinds }
  | some _ => .error .slotAfterTrailing

def expectEnd (s : Shape) : Except ShapeMisuse Shape :=
  s.add .lineEnd

/-- The slots to be checked: the end of the line is one of them unless arguments may trail. -/
def required (s : Shape) : List Slot :=
  match s.trailing with
  | some _ => s.slots
  | none => if s.slots.getLast?.any Slot.isLineEnd then s.slots else s.slots ++ [.lineEnd]

/-- Checks slots against arguments from the left; `eol` stands for what is missing. -/
def checkSlots (eol : Token) : List Slot → List Token → Except Error Unit
  | [], _ => .ok ()
  | slot :: slots, args =>
    match slot.check (args.headD eol) with
    | .error e => .error e
    | .ok () => checkSlots eol slots args.tail

def checkTrailing (kinds : List Kind) (args : List Token) : Except Error Unit :=
  match args.find? fun t => !kinds.contains t.kind with
  | none => .ok ()
  | some t => .error ⟨t.position, .unexpectedKind kinds t.kind⟩

/-- Checks the arguments that follow `head`. Where arguments are missing, the blame is at the last
token of the line. -/
def check (s : Shape) (head : Token) (args : List Token) : Except Error Unit :=
  let eol := Token.endOfLine (args.getLastD head).position
  match checkSlots eol s.required args, s.trailing with
  | .error e, _ => .error e
  | .ok (), none => .ok ()
  | .ok (), some kinds => checkTrailing kinds (args.drop s.slots.length)

end Shape
end Stackline
