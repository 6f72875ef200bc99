import Stackline.Position

/-! Tokens of the language: a kind, the text it stands for, and where it was written.
The literal of a sigil token leaves the sigil out; that of a string is already decoded. -/
namespace Stackline

/-- The kinds of token. `reference` is a use of an alias; `endOfLine` never occurs in a text and
stands for the place after the last token of a line. -/
inductive Kind where
  | word
  | number
  | string
  | directive
  | label
  | reference
  | endOfLine
  deriving DecidableEq, Inhabited

namespace Kind

def name : Kind → String
  | word => "word"
  | number => "number"
  | string => "string"
  | directive => "directive"
  | label => "label"
  | reference => "alias"
  | endOfLine => "end of line"

def all : List Kind :=
  [word, number, string, directive, label, reference, endOfLine]

theorem mem_all (k : Kind) : k ∈ all := by
  cases k <;> decide

theorem name_injective {k l : Kind} (h : k.name = l.name) : k = l := by
  revert h
  cases k <;> cases l <;> decide

end Kind

structure Token where
  kind : Kind
  literal : String
  position : Position
  deriving DecidableEq, Inhabited

abbrev Line := List Token

namespace Token

def hasKind (t : Token) (k : Kind) : Bool :=
  t.kind == k

def isExactly (t : Token) (k : Kind) (literal : String) : Bool :=
  t.kind == k && t.literal == literal

def moveTo (t : Token) (p : Position) : Token :=
  { t with position := p }

def endOfLine (p : Position) : Token :=
  ⟨.endOfLine, "", p⟩

@[simp] theorem hasKind_iff (t : Token) (k : Kind) : t.hasKind k = true ↔ t.kind = k := by
  simp [hasKind]

@[simp] theorem isExactly_iff (t : Token) (k : Kind) (l : String) :
    t.isExactly k l = true ↔ t.kind = k ∧ t.literal = l := by
  simp [isExactly]

@[simp] theorem kind_moveTo (t : Token) (p : Position) : (t.moveTo p).kind = t.kind := rfl

@[simp] theorem literal_moveTo (t : Token) (p : Position) : (t.moveTo p).literal = t.literal := rfl

@[simp] theorem position_moveTo (t : Token) (p : Position) : (t.moveTo p).position = p := rfl

@[simp] theorem moveTo_position (t : Token) : t.moveTo t.position = t := rfl

@[simp] theorem moveTo_moveTo (t : Token) (p q : Position) : (t.moveTo p).moveTo q = t.moveTo q := rfl

end Token
end Stackline
