import Stackline.Directory
import Stackline.Interpreter

/-! The command line: one argument names the program to run, and further ones are ignored. Printed
values go to the standard output and diagnostics to the standard error. -/
namespace Stackline

inductive Command where
  | usage (code : Nat)
  | runFile (path : String)
  deriving DecidableEq, Inhabited

namespace Command

def usageText : String :=
  "Usage: sala <file>\n\nRuns a sala program. Printed values go to stdout.\n"

/-- Asking for help is no error; naming no file is. -/
def ofArgs : List String → Command
  | [] => usage 1
  | arg :: _ => if arg = "--help" ∨ arg = "-h" then usage 0 else runFile arg

def sourceText (path : String) (content : Except FileError ByteArray) : Except String String :=
  let unreadable (e : FileError) := "error: unable to read file '" ++ path ++ "': " ++ e.text ++ "\n"
  match content with
  | .error .notFound => .error ("error: file '" ++ path ++ "' does not exist\n")
  | .error e => .error (unreadable e)
  | .ok bytes =>
    match String.fromUTF8? bytes with
    | none => .error (unreadable .invalidUtf8)
    | some text => .ok text

end Command

structure Exit where
  code : Nat
  stdout : ByteArray := .empty
  stderr : String := ""
  deriving Inhabited

/-- A program that fails is told from one that cannot be read. -/
def Outcome.exit? (stdout : ByteArray) : Outcome → Option Exit
  | finished _ => some { code := 0, stdout }
  | failed e => some { code := 2, stdout, stderr := e.message ++ "\n" }
  | unfinished => none

def Command.run (fuel : Nat) (d : Directory) : Command → Option Exit
  | usage code => some { code, stderr := usageText }
  | runFile path =>
    match sourceText path (d.read path) with
    | .error message => some { code := 1, stderr := message }
    | .ok text =>
      match runText fuel text ({} : ByteSink) with
      | (outcome, sink) => outcome.exit? sink.written

end Stackline
