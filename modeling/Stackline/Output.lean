import Stackline.Value

/-! Where printed values go. -/
namespace Stackline

class Output (σ : Type) where
  /-- Takes one value in, or tells why it could not. Either way the output may have changed. -/
  accept : σ → Value → Except String Unit × σ

structure PrintedValues where
  values : Array Value := #[]
  deriving DecidableEq, Inhabited

instance : Output PrintedValues where
  accept printed v := (.ok (), { printed with values := printed.values.push v })

/-- Keeps the bytes of the printed values, one after the other and with nothing between them. -/
structure ByteSink where
  written : ByteArray := .empty
  room : Option Nat := none
  /-- What goes wrong whenever bytes are to be passed on, if anything does. -/
  flushError : Option String := none
  deriving Inhabited

namespace ByteSink

def fullReason : String :=
  "sink full"

def fitting (s : ByteSink) (n : Nat) : Nat :=
  match s.room with
  | none => n
  | some room => min n (room - s.written.size)

def write (s : ByteSink) (bytes : ByteArray) : Except String Unit × ByteSink :=
  let n := s.fitting bytes.size
  match s with
  | ⟨written, room, flushError⟩ =>
    if n = bytes.size then (.ok (), ⟨written ++ bytes, room, flushError⟩)
    else (.error fullReason, ⟨written ++ bytes.extract 0 n, room, flushError⟩)

def flush (s : ByteSink) : Except String Unit :=
  match s.flushError with
  | none => .ok ()
  | some reason => .error reason

def accept (s : ByteSink) (v : Value) : Except String Unit × ByteSink :=
  match s.write v.render.toUTF8 with
  | (.error reason, s) => (.error reason, s)
  | (.ok (), s) => (s.flush, s)

end ByteSink

instance : Output ByteSink where
  accept := ByteSink.accept

end Stackline
