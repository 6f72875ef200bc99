import Stackline.Text.Unprintable

/-! Text between quotes, on one line and in visible characters. Six characters have an escape of
their own; a character without a visible form is written as its code point in hexadecimal. -/
namespace Stackline.Text

def shortEscape? : Char → Option String
  | '\x00' => some "\\0"
  | '\t' => some "\\t"
  | '\n' => some "\\n"
  | '\r' => some "\\r"
  | '"' => some "\\\""
  | '\\' => some "\\\\"
  | _ => none

def codePoint (c : Char) : String :=
  "\\u\x7b" ++ String.ofList (Nat.toDigits 16 c.toNat) ++ "\x7d"

/-- How a character stands inside quotes. -/
def escape (c : Char) : String :=
  match shortEscape? c with
  | some e => e
  | none => if isUnprintable c then codePoint c else c.toString

def appendEscaped (out : String) (c : Char) : String :=
  match shortEscape? c with
  | some e => out ++ e
  | none => if isUnprintable c then out ++ codePoint c else out.push c

def quote (s : String) : String :=
  (s.foldl appendEscaped "\"").push '"'

theorem appendEscaped_eq (out : String) (c : Char) : appendEscaped out c = out ++ escape c := by
  unfold appendEscaped escape
  split
  · rfl
  · split
    · rfl
    · rw [← String.toList_inj]
      simp

theorem toList_foldl_appendEscaped (cs : List Char) (out : String) :
    (cs.foldl appendEscaped out).toList = out.toList ++ cs.flatMap fun c => (escape c).toList := by
  induction cs generalizing out with
  | nil => simp
  | cons c cs ih => simp [ih, appendEscaped_eq]

theorem toList_quote (s : String) :
    (quote s).toList = '"' :: (s.toList.flatMap fun c => (escape c).toList) ++ ['"'] := by
  simp [quote, String.foldl_eq_foldl_toList, toList_foldl_appendEscaped]

end Stackline.Text
