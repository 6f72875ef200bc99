import Stackline.CommandLine

/-! The program itself: reads the file, runs it, and passes printed bytes on as they come. -/
namespace Stackline

/-- Systems count their errors upward from zero or downward from it. -/
def errorNumber (code : UInt32) : Nat :=
  if code < 0x80000000 then code.toNat else (0 - code).toNat

def fileError : IO.Error → FileError
  | .noFileOrDirectory _ _ _ => .notFound
  | .inappropriateType _ code details => .ofCode (errorNumber code) details
  | .invalidArgument _ code details => .ofCode (errorNumber code) details
  | .permissionDenied _ code details => .ofCode (errorNumber code) details
  | .resourceExhausted _ code details => .ofCode (errorNumber code) details
  | .otherError code details => .ofCode (errorNumber code) details
  | e => .system 0 (toString e)

partial def runProgram (p : Program) (m : Machine ByteSink) : IO UInt32 := do
  let (status, m) := Machine.advance p m
  let stdout ← IO.getStdout
  unless m.output.written.isEmpty do
    stdout.write m.output.written
    stdout.flush
  match status with
  | .running => runProgram p { m with output := {} }
  | .finished => return 0
  | .failed e =>
    IO.eprint (e.message ++ "\n")
    return 2

def runSource (text : String) : IO UInt32 := do
  match Line.ofText text >>= Program.ofLines with
  | .error e =>
    IO.eprint (e.message ++ "\n")
    return 2
  | .ok p => runProgram p { output := {} }

end Stackline

open Stackline in
def main (args : List String) : IO UInt32 := do
  match Command.ofArgs args with
  | .usage code =>
    IO.eprint Command.usageText
    return code.toUInt32
  | .runFile path =>
    let content ← try pure (.ok (← IO.FS.readBinFile path)) catch e => pure (.error (fileError e))
    match Command.sourceText path content with
    | .error message =>
      IO.eprint message
      return 1
    | .ok text => runSource text
