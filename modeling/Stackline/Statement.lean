import Stackline.Token

/-! What a line is, judged by its first token. -/
namespace Stackline

def declarationWord : String :=
  "alias"

inductive Statement where
  | blank
  | label (head : Token) (args : List Token)
  | declaration (head : Token) (args : List Token)
  | directive (head : Token) (args : List Token)
  | instruction (head : Token) (args : List Token)
  | stray (head : Token) (args : List Token)
  deriving DecidableEq, Inhabited

namespace Statement

def ofLine : Line → Statement
  | [] => blank
  | head :: args =>
    match head.kind with
    | .label => label head args
    | .directive => directive head args
    | .word => if head.literal = declarationWord then declaration head args else instruction head args
    | _ => stray head args

end Statement
end Stackline
