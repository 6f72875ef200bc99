/-! Places in a program text. Lines and columns count from zero; a column counts characters. -/
namespace Stackline

structure Position where
  line : Nat
  column : Nat
  deriving DecidableEq, Inhabited

namespace Position

/-- Readers count lines and columns from one. -/
def text (p : Position) : String :=
  "line " ++ (p.line + 1).repr ++ ", col " ++ (p.column + 1).repr

end Position
end Stackline
