/-! Physical lines of a text. A newline ends a line, together with one carriage return right before
it; no line follows a newline that ends the text. -/
namespace Stackline.Text

def attach (c : Char) : List (List Char) → List (List Char)
  | [] => [[c]]
  | s :: ss => if c = '\n' then [c] :: s :: ss else (c :: s) :: ss

/-- The text cut after each newline. -/
def segments (cs : List Char) : List (List Char) :=
  cs.foldr attach []

/-- A segment without the newline, or carriage return and newline, that ends it. -/
def chomp (segment : List Char) : List Char :=
  match segment.reverse with
  | '\n' :: '\r' :: rest => rest.reverse
  | '\n' :: rest => rest.reverse
  | _ => segment

def lines (cs : List Char) : List (List Char) :=
  (segments cs).map chomp

@[simp] theorem segments_nil : segments [] = [] := rfl

@[simp] theorem segments_cons (c : Char) (cs : List Char) :
    segments (c :: cs) = attach c (segments cs) := rfl

theorem flatten_attach (c : Char) (ss : List (List Char)) :
    (attach c ss).flatten = c :: ss.flatten := by
  cases ss with
  | nil => rfl
  | cons s ss => by_cases h : c = '\n' <;> simp [attach, h]

theorem flatten_segments (cs : List Char) : (segments cs).flatten = cs := by
  induction cs with
  | nil => rfl
  | cons c cs ih => simp [flatten_attach, ih]

@[simp] theorem lines_nil : lines [] = [] := rfl

end Stackline.Text
