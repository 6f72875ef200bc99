import Stackline.Error

/-! The operand stack. -/
namespace Stackline

structure Stack where
  /-- From the top down. -/
  items : List Value
  deriving DecidableEq, Inhabited

namespace Stack

def empty : Stack :=
  ⟨[]⟩

/-- From the bottom up. -/
def toList (s : Stack) : List Value :=
  s.items.reverse

def ofList (values : List Value) : Stack :=
  ⟨values.reverse⟩

def size (s : Stack) : Nat :=
  s.items.length

def isEmpty (s : Stack) : Bool :=
  s.items.isEmpty

def push (s : Stack) (v : Value) : Stack :=
  ⟨v :: s.items⟩

/-- The top value and what is below it. Whoever asked, at `p`, is blamed if there is none. -/
def pop (s : Stack) (p : Position) : Except Error (Value × Stack) :=
  match s.items with
  | [] => .error ⟨p, .stackUnderflow⟩
  | v :: below => .ok (v, ⟨below⟩)

/-- The two top values, the upper one second. A single value is not enough. -/
def popPair (s : Stack) (p : Position) : Except Error ((Value × Value) × Stack) :=
  match s.items with
  | b :: a :: below => .ok ((a, b), ⟨below⟩)
  | _ => .error ⟨p, .stackUnderflow⟩

def text (s : Stack) : String :=
  match s.toList with
  | [] => "[]"
  | values => "[ " ++ ", ".intercalate (values.map Value.quoted) ++ " ]"

@[simp] theorem toList_empty : empty.toList = [] := rfl

@[simp] theorem toList_ofList (values : List Value) : (ofList values).toList = values := by
  simp [toList, ofList]

@[simp] theorem ofList_toList (s : Stack) : ofList s.toList = s := by
  simp [toList, ofList]

@[simp] theorem toList_push (s : Stack) (v : Value) : (s.push v).toList = s.toList ++ [v] := by
  simp [toList, push]

@[simp] theorem pop_push (s : Stack) (v : Value) (p : Position) :
    (s.push v).pop p = .ok (v, s) := rfl

@[simp] theorem popPair_push_push (s : Stack) (a b : Value) (p : Position) :
    ((s.push a).push b).popPair p = .ok ((a, b), s) := rfl

theorem pop_eq_ok {s below : Stack} {v : Value} {p : Position} :
    s.pop p = .ok (v, below) ↔ s = below.push v := by
  obtain ⟨items⟩ := s
  obtain ⟨rest⟩ := below
  cases items <;> simp [pop, push]

theorem popPair_eq_ok {s below : Stack} {a b : Value} {p : Position} :
    s.popPair p = .ok ((a, b), below) ↔ s = (below.push a).push b := by
  obtain ⟨items⟩ := s
  obtain ⟨rest⟩ := below
  cases items with
  | nil => simp [popPair, push]
  | cons v items => cases items <;> simp [popPair, push, and_comm, and_assoc]

end Stack
end Stackline
