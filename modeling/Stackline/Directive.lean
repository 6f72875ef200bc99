import Stackline.Shape

/-! Directives say something about a program before its first line of code. -/
namespace Stackline

inductive Directive where
  | title
  deriving DecidableEq, Inhabited

namespace Directive

def name : Directive → String
  | title => "title"

def all : List Directive :=
  [title]

def ofName? (name : String) : Option Directive :=
  all.find? fun d => d.name == name

def shape : Directive → Shape
  | title => .ofKinds [[.string]]

theorem ofName?_name (d : Directive) : ofName? d.name = some d := by
  cases d
  rfl

end Directive
end Stackline
