/-! Where lines of input come from. No instruction reads any; whoever embeds the language can. -/
namespace Stackline

inductive ReadError where
  | invalidUtf8
  | closed
  | other (reason : String)
  deriving DecidableEq, Inhabited

def ReadError.message : ReadError → String
  | invalidUtf8 => "stream did not contain valid UTF-8"
  | closed => "closed"
  | other reason => reason

class Input (ι : Type) where
  readLine : ι → Except ReadError String × ι

structure ByteSource where
  rest : List UInt8
  consumed : Nat := 0
  deriving DecidableEq, Inhabited

namespace ByteSource

def cut (bytes : List UInt8) : List UInt8 × List UInt8 :=
  let (line, rest) := bytes.span (· != 10)
  (line ++ rest.take 1, rest.drop 1)

/-- Takes a newline off the end, and then a carriage return off what is left. -/
def popEnding (cs : List Char) : List Char :=
  if cs.getLast? = some '\n' then
    let line := cs.dropLast
    if line.getLast? = some '\r' then line.dropLast else line
  else cs

/-- A line that is no text is read too, and lost. At the end every line is empty. -/
def readLine (s : ByteSource) : Except ReadError String × ByteSource :=
  let (line, rest) := cut s.rest
  let after : ByteSource := ⟨rest, s.consumed + line.length⟩
  match String.fromUTF8? ⟨line.toArray⟩ with
  | none => (.error .invalidUtf8, after)
  | some text => (.ok (String.ofList (popEnding text.toList)), after)

end ByteSource

instance : Input ByteSource where
  readLine := ByteSource.readLine

/-- Answers given in advance, one for each line; a reason stands for an answer that fails. -/
structure Script where
  answers : List (Except String String)

instance : Input Script where
  readLine
    | ⟨[]⟩ => (.error .closed, ⟨[]⟩)
    | ⟨.ok line :: rest⟩ => (.ok line, ⟨rest⟩)
    | ⟨.error reason :: rest⟩ => (.error (.other reason), ⟨rest⟩)

end Stackline
