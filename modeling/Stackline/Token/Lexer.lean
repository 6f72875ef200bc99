import Stackline.Error
import Stackline.Text.Lines

/-! Reading tokens from text, one physical line at a time. Blanks separate tokens where nothing else
does, a semicolon starts a comment, and every token takes as many characters as it can. -/
namespace Stackline

def isBlank (c : Char) : Bool :=
  c == ' ' || c == '\t' || c == '\r'

def isWordChar (c : Char) : Bool :=
  c.isAlphanum || c == '_'

def sigil? : Char → Option Kind
  | '.' => some .directive
  | ':' => some .label
  | '$' => some .reference
  | _ => none

def unescape? : Char → Option Char
  | '\\' => some '\\'
  | '\'' => some '\''
  | '"' => some '"'
  | 'n' => some '\n'
  | 'r' => some '\r'
  | '0' => some '\x00'
  | _ => none

/-- The part of a string literal after its opening quote. Widths and offsets count characters from
there; the width takes in the closing quote. -/
inductive StringBody where
  | closed (text : List Char) (width : Nat) (rest : List Char)
  | unterminated
  | badEscape (offset : Nat) (c : Char)

namespace StringBody

def cons (c : Char) (n : Nat) : StringBody → StringBody
  | closed text width rest => closed (c :: text) (n + width) rest
  | unterminated => unterminated
  | badEscape offset e => badEscape (n + offset) e

def read : List Char → StringBody
  | [] => unterminated
  | c :: cs =>
    if c = '"' then closed [] 1 cs
    else if c = '\\' then
      match cs with
      | [] => unterminated
      | e :: cs =>
        match unescape? e with
        | some d => (read cs).cons d 2
        | none => badEscape 1 e
    else (read cs).cons c 1

theorem cons_eq_closed {b : StringBody} {c : Char} {n : Nat} {text : List Char} {width : Nat}
    {rest : List Char} (h : b.cons c n = closed text width rest) :
    ∃ t w, b = closed t w rest ∧ text = c :: t ∧ width = n + w := by
  cases b <;> simp [cons] at h
  next t w r => exact ⟨t, w, by simp [h.2.2], h.1.symm, h.2.1.symm⟩

theorem width_add_length {cs text rest : List Char} {width : Nat}
    (h : read cs = closed text width rest) : width + rest.length = cs.length := by
  fun_induction read cs generalizing text width with
  | case1 => simp at h
  | case2 cs => simp at h; simp [← h.2.1, ← h.2.2]; omega
  | case3 => simp at h
  | case4 e cs d _ _ ih =>
    obtain ⟨t, w, hb, -, rfl⟩ := cons_eq_closed h
    have := ih hb
    simp only [List.length_cons]
    omega
  | case5 => simp at h
  | case6 c cs _ _ ih =>
    obtain ⟨t, w, hb, -, rfl⟩ := cons_eq_closed h
    have := ih hb
    simp only [List.length_cons]
    omega

end StringBody

inductive Lexeme where
  /-- The line, or what is not comment of it, ends here. -/
  | done
  | blank (rest : List Char)
  | token (kind : Kind) (literal : List Char) (width : Nat) (rest : List Char)
  | bad (offset : Nat) (cause : Cause)

namespace Lexeme

def read : List Char → Lexeme
  | [] => done
  | c :: cs =>
    if isBlank c then blank cs
    else if c = '"' then
      match StringBody.read cs with
      | .closed text width rest => token .string text (width + 1) rest
      | .unterminated => bad 0 .unterminatedString
      | .badEscape offset e => bad (offset + 1) (.invalidEscape e)
    else if c.isDigit then
      let digits := cs.takeWhile Char.isDigit
      token .number (c :: digits) (digits.length + 1) (cs.dropWhile Char.isDigit)
    else
      let name := cs.takeWhile isWordChar
      let rest := cs.dropWhile isWordChar
      match sigil? c with
      | some kind => token kind name (name.length + 1) rest
      | none =>
        if isWordChar c then token .word (c :: name) (name.length + 1) rest
        else if c = ';' then done
        else bad 0 (.illegalCharacter c)

theorem length_dropWhile_le (p : Char → Bool) (cs : List Char) :
    (cs.dropWhile p).length ≤ cs.length :=
  (List.dropWhile_suffix p).length_le

theorem length_rest_lt {cs rest literal : List Char} {kind : Kind} {width : Nat}
    (h : read cs = token kind literal width rest) : rest.length < cs.length := by
  cases cs with
  | nil => simp [read] at h
  | cons c cs =>
    simp only [read] at h
    split at h
    · simp at h
    · split at h
      · split at h
        · next hb =>
          have := StringBody.width_add_length hb
          simp only [token.injEq] at h
          rw [← h.2.2.2, List.length_cons]
          omega
        · simp at h
        · simp at h
      · split at h
        · have := length_dropWhile_le Char.isDigit cs
          simp only [token.injEq] at h
          rw [← h.2.2.2, List.length_cons]
          omega
        · have := length_dropWhile_le isWordChar cs
          split at h
          · simp only [token.injEq] at h
            rw [← h.2.2.2, List.length_cons]
            omega
          · split at h
            · simp only [token.injEq] at h
              rw [← h.2.2.2, List.length_cons]
              omega
            · split at h <;> simp at h

theorem length_blank_lt {cs rest : List Char} (h : read cs = blank rest) :
    rest.length < cs.length := by
  cases cs with
  | nil => simp [read] at h
  | cons c cs =>
    simp only [read] at h
    split at h
    · simp only [blank.injEq] at h
      simp [← h]
    · split at h
      · split at h <;> simp at h
      · split at h
        · simp at h
        · split at h
          · simp at h
          · split at h
            · simp at h
            · split at h <;> simp at h

end Lexeme

namespace Line

/-- The tokens of `cs`, which starts at the given column of the given line. -/
def readFrom (line column : Nat) (cs : List Char) : Except Error Line :=
  match h : Lexeme.read cs with
  | .done => .ok []
  | .blank rest =>
    have := Lexeme.length_blank_lt h
    readFrom line (column + 1) rest
  | .token kind literal width rest =>
    have := Lexeme.length_rest_lt h
    (readFrom line (column + width) rest).map
      (⟨kind, String.ofList literal, ⟨line, column⟩⟩ :: ·)
  | .bad offset cause => .error ⟨⟨line, column + offset⟩, cause⟩
termination_by cs.length

/-- The tokens of one line; a newline ends it. -/
def ofChars (line : Nat) (cs : List Char) : Except Error Line :=
  readFrom line 0 (cs.takeWhile (· != '\n'))

/-- The tokens of consecutive lines. The first line that cannot be read decides the error. -/
def readAll (line : Nat) : List (List Char) → Except Error (List Line)
  | [] => .ok []
  | cs :: rest =>
    match ofChars line cs with
    | .error e => .error e
    | .ok tokens => (readAll (line + 1) rest).map (tokens :: ·)

/-- The lines of a program text, blank ones included, so that an index is a line number. -/
def ofText (text : String) : Except Error (List Line) :=
  readAll 0 (Text.lines text.toList)

end Line
end Stackline
