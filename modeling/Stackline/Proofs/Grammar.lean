import Stackline.Token.Lexer
import Mathlib.Tactic.Common

/-! How a line is written. Its tokens have spellings, with blanks between them where the author put
some, and a comment may follow. Reading a line finds the one way in which it can be taken apart
like this. -/
namespace Stackline

def IsGap (cs : List Char) : Prop :=
  ∀ c ∈ cs, c = ' ' ∨ c = '\t' ∨ c = '\r'

def IsTail (cs : List Char) : Prop :=
  cs = [] ∨ ∃ comment, cs = ';' :: comment

def WordChar (c : Char) : Prop :=
  c.isAlpha = true ∨ c.isDigit = true ∨ c = '_'

def escapes : List (Char × Char) :=
  [('\\', '\\'), ('\'', '\''), ('"', '"'), ('n', '\n'), ('r', '\r'), ('0', '\x00')]

def sigils : List (Char × Kind) :=
  [('.', .directive), (':', .label), ('$', .reference)]

inductive Decodes : List Char → List Char → Prop
  | nil : Decodes [] []
  | raw {c : Char} {cs text : List Char} (notQuote : c ≠ '"') (notBackslash : c ≠ '\\')
      (rest : Decodes cs text) : Decodes (c :: cs) (c :: text)
  | escape {e c : Char} {cs text : List Char} (known : (e, c) ∈ escapes)
      (rest : Decodes cs text) : Decodes ('\\' :: e :: cs) (c :: text)

/-- The characters of a token, its kind and its literal. -/
inductive Spells : List Char → Kind → List Char → Prop
  | word {c : Char} {cs : List Char} (start : c.isAlpha = true ∨ c = '_')
      (run : ∀ d ∈ cs, WordChar d) : Spells (c :: cs) .word (c :: cs)
  | number {c : Char} {cs : List Char} (run : ∀ d ∈ c :: cs, d.isDigit = true) :
      Spells (c :: cs) .number (c :: cs)
  | sigil {c : Char} {kind : Kind} {cs : List Char} (known : (c, kind) ∈ sigils)
      (run : ∀ d ∈ cs, WordChar d) : Spells (c :: cs) kind cs
  | string {cs text : List Char} (body : Decodes cs text) :
      Spells ('"' :: (cs ++ ['"'])) .string text

/-- A token of the kind goes on if this character comes next. -/
def Kind.GoesOn : Kind → Char → Prop
  | .number, c => c.isDigit = true
  | .string, _ | .endOfLine, _ => False
  | .word, c | .directive, c | .label, c | .reference, c => WordChar c

structure Written where
  spelling : List Char
  gap : List Char

def Written.chars (w : Written) : List Char :=
  w.spelling ++ w.gap

structure Layout where
  indent : List Char
  items : List Written
  tail : List Char

namespace Layout

def chars (l : Layout) : List Char :=
  l.indent ++ l.items.flatMap Written.chars ++ l.tail

def offset (l : Layout) (i : Nat) : Nat :=
  l.indent.length + ((l.items.take i).flatMap Written.chars).length

/-- `cs`, which starts at the given column of the given line, is laid out like this and holds these
tokens: each is spelled by its item, stands where that starts, and takes all that it can. -/
structure Describes (l : Layout) (line column : Nat) (cs : List Char) (tokens : Line) : Prop where
  whole : cs = l.chars
  count : l.items.length = tokens.length
  indent : IsGap l.indent
  gaps : ∀ w ∈ l.items, IsGap w.gap
  tail : IsTail l.tail
  spelled : ∀ (i : Nat) (w : Written) (t : Token), l.items[i]? = some w → tokens[i]? = some t →
    Spells w.spelling t.kind t.literal.toList
  placed : ∀ (i : Nat) (t : Token), tokens[i]? = some t →
    t.position = ⟨line, column + l.offset i⟩
  maximal : ∀ (i : Nat) (w : Written) (t : Token) (c : Char), l.items[i]? = some w →
    tokens[i]? = some t → cs[l.offset i + w.spelling.length]? = some c → ¬t.kind.GoesOn c

variable {line column : Nat} {indent tail cs : List Char} {w : Written} {items : List Written}
  {tokens : Line}

theorem describes_nil : (⟨indent, [], tail⟩ : Layout).Describes line column cs tokens ↔
    tokens = [] ∧ cs = indent ++ tail ∧ IsGap indent ∧ IsTail tail := by
  constructor
  · intro h
    have hcount := h.count
    refine ⟨List.eq_nil_of_length_eq_zero (by simpa using hcount.symm), ?_, h.indent, h.tail⟩
    simpa [chars] using h.whole
  · intro h
    obtain ⟨rfl, rfl, hindent, htail⟩ := h
    exact ⟨by simp [chars], rfl, hindent, by simp, htail, by simp, by simp, by simp⟩

theorem offset_succ (i : Nat) : (⟨indent, w :: items, tail⟩ : Layout).offset (i + 1) =
    indent.length + w.spelling.length + (⟨w.gap, items, tail⟩ : Layout).offset i := by
  simp only [offset, Written.chars, List.take_succ_cons, List.flatMap_cons, List.length_append]
  omega

theorem chars_cons : (⟨indent, w :: items, tail⟩ : Layout).chars =
    indent ++ (w.spelling ++ (⟨w.gap, items, tail⟩ : Layout).chars) := by
  simp [chars, Written.chars]

/-- The first token can be taken off; the blanks after it are the indentation of the rest. -/
theorem describes_cons : (⟨indent, w :: items, tail⟩ : Layout).Describes line column cs tokens ↔
    ∃ t ts rest, tokens = t :: ts ∧ cs = indent ++ (w.spelling ++ rest) ∧ IsGap indent ∧
      Spells w.spelling t.kind t.literal.toList ∧ t.position = ⟨line, column + indent.length⟩ ∧
      (∀ c, rest.head? = some c → ¬t.kind.GoesOn c) ∧
      (⟨w.gap, items, tail⟩ : Layout).Describes line
        (column + indent.length + w.spelling.length) rest ts := by
  have hzero : (⟨indent, w :: items, tail⟩ : Layout).offset 0 = indent.length := by simp [offset]
  have hafter (rest : List Char) (k : Nat) :
      (indent ++ (w.spelling ++ rest))[indent.length + w.spelling.length + k]? = rest[k]? := by
    rw [← List.append_assoc, ← List.length_append, List.getElem?_append_right (by omega)]
    simp
  constructor
  · intro h
    obtain ⟨t, ts, rfl⟩ : ∃ t ts, tokens = t :: ts :=
      List.exists_cons_of_length_pos (by simp [← h.count])
    have hwhole := h.whole
    rw [chars_cons] at hwhole
    subst hwhole
    refine ⟨t, ts, _, rfl, rfl, h.indent, h.spelled 0 w t rfl rfl, ?_, ?_, ?_⟩
    · simpa [hzero] using h.placed 0 t rfl
    · intro c hc
      apply h.maximal 0 w t c rfl rfl
      rw [hzero, ← hc, List.head?_eq_getElem?]
      exact hafter _ 0
    · refine ⟨rfl, by simpa using h.count, h.gaps w (by simp), fun v hv => h.gaps v (by simp [hv]),
        h.tail, fun i v u hv hu => h.spelled (i + 1) v u hv hu, ?_, ?_⟩
      · intro i u hu
        rw [h.placed (i + 1) u hu, offset_succ]
        simp only [Position.mk.injEq, true_and]
        omega
      · intro i v u c hv hu hc
        apply h.maximal (i + 1) v u c hv hu
        rw [offset_succ, Nat.add_assoc, hafter]
        exact hc
  · intro h
    obtain ⟨t, ts, rest, rfl, rfl, hindent, hspells, hplace, hmax, h⟩ := h
    refine ⟨by rw [chars_cons, h.whole], by simp [h.count], hindent, ?_, h.tail, ?_, ?_, ?_⟩
    · intro v hv
      cases List.mem_cons.1 hv with
      | inl hfirst => exact hfirst ▸ h.indent
      | inr hlater => exact h.gaps v hlater
    · intro i v u hv hu
      cases i with
      | zero =>
        cases hv
        cases hu
        exact hspells
      | succ i => exact h.spelled i v u hv hu
    · intro i u hu
      cases i with
      | zero =>
        cases hu
        rw [hplace, hzero]
      | succ i =>
        rw [h.placed i u hu, offset_succ]
        simp only [Position.mk.injEq, true_and]
        omega
    · intro i v u c hv hu hc
      cases i with
      | zero =>
        cases hv
        cases hu
        apply hmax c
        rw [hzero] at hc
        rw [List.head?_eq_getElem?, ← hc]
        exact (hafter rest 0).symm
      | succ i =>
        apply h.maximal i v u c hv hu
        rw [offset_succ, Nat.add_assoc, hafter] at hc
        exact hc

theorem Describes.blank {c : Char} (h : (⟨indent, items, tail⟩ : Layout).Describes line (column + 1)
    cs tokens) (hc : c = ' ' ∨ c = '\t' ∨ c = '\r') :
    (⟨c :: indent, items, tail⟩ : Layout).Describes line column (c :: cs) tokens := by
  have hgap (hindent : IsGap indent) : IsGap (c :: indent) := by
    intro d hd
    cases List.mem_cons.1 hd with
    | inl hfirst => exact hfirst ▸ hc
    | inr hlater => exact hindent d hlater
  cases items with
  | nil =>
    obtain ⟨rfl, rfl, hindent, htail⟩ := describes_nil.1 h
    exact describes_nil.2 ⟨rfl, rfl, hgap hindent, htail⟩
  | cons w items =>
    obtain ⟨t, ts, rest, rfl, rfl, hindent, hspells, hplace, hmax, hrest⟩ := describes_cons.1 h
    have hcolumn : column + (c :: indent).length = column + 1 + indent.length := by
      simp only [List.length_cons]
      omega
    rw [← hcolumn] at hplace hrest
    exact describes_cons.2 ⟨t, ts, rest, rfl, rfl, hgap hindent, hspells, hplace, hmax, hrest⟩

end Layout

theorem isBlank_iff {c : Char} : isBlank c = true ↔ c = ' ' ∨ c = '\t' ∨ c = '\r' := by
  simp [isBlank, or_assoc]

theorem isWordChar_iff {c : Char} : isWordChar c = true ↔ WordChar c := by
  simp [isWordChar, WordChar, Char.isAlphanum, or_assoc]

theorem sigil?_eq_some {c : Char} {kind : Kind} : sigil? c = some kind ↔ (c, kind) ∈ sigils := by
  simp only [sigil?]
  split <;> simp_all [sigils, eq_comm]

theorem unescape?_eq_some {e c : Char} : unescape? e = some c ↔ (e, c) ∈ escapes := by
  simp only [unescape?]
  split <;> simp_all [escapes, eq_comm]

theorem span_append {p : Char → Bool} {run rest : List Char} (hrun : ∀ c ∈ run, p c = true)
    (hrest : ∀ c, rest.head? = some c → p c = false) :
    (run ++ rest).takeWhile p = run ∧ (run ++ rest).dropWhile p = rest := by
  rw [List.takeWhile_append_of_pos hrun, List.dropWhile_append_of_pos hrun]
  cases rest with
  | nil => simp
  | cons c cs => simp [hrest c rfl]

theorem head?_dropWhile {p : Char → Bool} {cs : List Char} {c : Char}
    (h : (cs.dropWhile p).head? = some c) : p c = false := by
  have := List.head?_dropWhile_not p cs
  simpa [h] using this

namespace StringBody

def behind (text : List Char) (n : Nat) : StringBody → StringBody
  | closed more width rest => closed (text ++ more) (n + width) rest
  | unterminated => unterminated
  | badEscape offset e => badEscape (n + offset) e

theorem behind_cons (text : List Char) (n : Nat) (b : StringBody) (c : Char) (k : Nat) :
    (b.behind text n).cons c k = b.behind (c :: text) (k + n) := by
  cases b <;> simp [behind, cons, Nat.add_assoc]

theorem read_append {body text : List Char} (h : Decodes body text) (rest : List Char) :
    read (body ++ rest) = (read rest).behind text body.length := by
  induction h with
  | nil => cases hr : read rest <;> simp [behind, hr]
  | raw notQuote notBackslash _ ih =>
    rw [List.cons_append, read.eq_def]
    simp only [notQuote, notBackslash, if_false, ih, behind_cons, List.length_cons]
    rw [Nat.add_comm 1]
  | @escape e c cs text known _ ih =>
    have hlength : ('\\' :: e :: cs).length = 2 + cs.length := by
      simp only [List.length_cons]
      omega
    rw [List.cons_append, List.cons_append, read.eq_def, hlength]
    simp [unescape?_eq_some.2 known, ih, behind_cons]

theorem read_of_decodes {body text : List Char} (h : Decodes body text) (rest : List Char) :
    read (body ++ '"' :: rest) = closed text (body.length + 1) rest := by
  rw [read_append h, read.eq_def]
  simp [behind]

theorem read_eq_closed {cs text rest : List Char} {width : Nat} :
    read cs = closed text width rest ↔
      ∃ body, cs = body ++ '"' :: rest ∧ width = body.length + 1 ∧ Decodes body text := by
  constructor
  · intro h
    fun_induction read cs generalizing text width with
    | case1 => cases h
    | case2 cs =>
      cases h
      exact ⟨[], rfl, rfl, .nil⟩
    | case3 => cases h
    | case4 e cs d hd _ ih =>
      obtain ⟨t, w, hb, rfl, rfl⟩ := cons_eq_closed h
      obtain ⟨body, rfl, rfl, hbody⟩ := ih hb
      refine ⟨'\\' :: e :: body, rfl, ?_, .escape (unescape?_eq_some.1 hd) hbody⟩
      simp only [List.length_cons]
      omega
    | case5 => cases h
    | case6 c cs hquote hslash ih =>
      obtain ⟨t, w, hb, rfl, rfl⟩ := cons_eq_closed h
      obtain ⟨body, rfl, rfl, hbody⟩ := ih hb
      refine ⟨c :: body, rfl, ?_, .raw hquote hslash hbody⟩
      simp only [List.length_cons]
      omega
  · intro h
    obtain ⟨body, rfl, rfl, hbody⟩ := h
    exact read_of_decodes hbody rest

end StringBody

theorem plain_of_class {p : Char → Bool} {c : Char} (h : p c = true)
    (hp : p ' ' = false ∧ p '\t' = false ∧ p '\r' = false ∧ p '"' = false) :
    isBlank c = false ∧ c ≠ '"' := by
  have hne (d : Char) (hd : p d = false) : c ≠ d := by
    intro heq
    rw [← heq, h] at hd
    cases hd
  refine ⟨?_, hne '"' hp.2.2.2⟩
  simp [isBlank, hne ' ' hp.1, hne '\t' hp.2.1, hne '\r' hp.2.2.1]

theorem isDigit_of_isAlpha {c : Char} (h : c.isAlpha = true) : c.isDigit = false := by
  rw [Bool.eq_false_iff]
  intro hdigit
  delta Char.isAlpha Char.isUpper Char.isLower at h
  simp only [Char.isDigit, Bool.or_eq_true, Bool.and_eq_true, decide_eq_true_eq,
    UInt32.le_iff_toNat_le, ge_iff_le, Char.reduceVal, UInt32.reduceToNat] at h hdigit
  omega

theorem isAlphanum_of_sigil {c : Char} {kind : Kind} (h : (c, kind) ∈ sigils) :
    c.isAlphanum = false := by
  simp only [sigils, List.mem_cons, Prod.mk.injEq, List.not_mem_nil, or_false] at h
  obtain ⟨rfl, -⟩ | ⟨rfl, -⟩ | ⟨rfl, -⟩ := h <;> rfl

theorem class_of_word_start {c : Char} (h : c.isAlpha = true ∨ c = '_') :
    c.isDigit = false ∧ sigil? c = none ∧ isWordChar c = true := by
  cases h with
  | inl halpha =>
    refine ⟨isDigit_of_isAlpha halpha, ?_, isWordChar_iff.2 (Or.inl halpha)⟩
    cases hs : sigil? c with
    | none => rfl
    | some kind =>
      have hplain := isAlphanum_of_sigil (sigil?_eq_some.1 hs)
      simp [Char.isAlphanum, halpha] at hplain
  | inr hunderscore =>
    subst hunderscore
    decide

theorem goesOn_of_sigil {c d : Char} {kind : Kind} (h : (c, kind) ∈ sigils) :
    kind.GoesOn d ↔ WordChar d := by
  simp only [sigils, List.mem_cons, Prod.mk.injEq, List.not_mem_nil, or_false] at h
  obtain ⟨-, rfl⟩ | ⟨-, rfl⟩ | ⟨-, rfl⟩ := h <;> rfl

namespace Lexeme

/-- What stands at the front of some characters, told by what they are. -/
inductive Front (cs : List Char) : Lexeme → Prop
  | done (tail : IsTail cs) : Front cs done
  | blank {c : Char} {rest : List Char} (cut : cs = c :: rest)
      (hc : c = ' ' ∨ c = '\t' ∨ c = '\r') : Front cs (blank rest)
  | token {spelling literal rest : List Char} {kind : Kind} (cut : cs = spelling ++ rest)
      (spells : Spells spelling kind literal)
      (maximal : ∀ c, rest.head? = some c → ¬kind.GoesOn c) :
      Front cs (token kind literal spelling.length rest)
  | bad {offset : Nat} {cause : Cause} : Front cs (bad offset cause)

theorem front_read (cs : List Char) : Front cs (read cs) := by
  cases cs with
  | nil => exact .done (Or.inl rfl)
  | cons c cs =>
    have hwordRun : ∀ d ∈ cs.takeWhile isWordChar, WordChar d :=
      fun d hd => isWordChar_iff.1 (List.all_eq_true.1 List.all_takeWhile d hd)
    have hwordEnd : ∀ d, (cs.dropWhile isWordChar).head? = some d → ¬WordChar d := by
      intro d hd
      rw [← isWordChar_iff, head?_dropWhile hd]
      decide
    have hcut (p : Char → Bool) : c :: cs = c :: cs.takeWhile p ++ cs.dropWhile p := by simp
    simp only [read]
    split
    · rename_i hblank
      exact .blank rfl (isBlank_iff.1 hblank)
    · split
      · rename_i hquote
        subst hquote
        split
        · rename_i rest hb
          obtain ⟨body, rfl, rfl, hbody⟩ := StringBody.read_eq_closed.1 hb
          have hcut : '"' :: (body ++ '"' :: rest) = '"' :: (body ++ ['"']) ++ rest := by simp
          simpa using Front.token hcut (.string hbody) (by simp [Kind.GoesOn])
        · exact .bad
        · exact .bad
      · split
        · rename_i hdigit
          refine .token (hcut _) (.number ?_) ?_
          · intro d hd
            cases List.mem_cons.1 hd with
            | inl hfirst => exact hfirst ▸ hdigit
            | inr hlater => exact List.all_eq_true.1 List.all_takeWhile d hlater
          · intro d hd
            simp [Kind.GoesOn, head?_dropWhile hd]
        · rename_i hdigit
          split
          · rename_i kind hs
            have hknown := sigil?_eq_some.1 hs
            refine .token (hcut _) (.sigil hknown hwordRun) ?_
            intro d hd
            rw [goesOn_of_sigil hknown]
            exact hwordEnd d hd
          · split
            · rename_i hword
              refine .token (hcut _) (.word ?_ hwordRun) hwordEnd
              have hclass := isWordChar_iff.1 hword
              simpa [WordChar, hdigit] using hclass
            · split
              · rename_i hcomment
                subst hcomment
                exact .done (Or.inr ⟨cs, rfl⟩)
              · exact .bad

theorem read_of_isTail {cs : List Char} (h : IsTail cs) : read cs = done := by
  cases h with
  | inl hnil =>
    subst hnil
    rfl
  | inr hcomment =>
    obtain ⟨comment, rfl⟩ := hcomment
    simp [read, isBlank, isWordChar, sigil?]

theorem read_of_blank {c : Char} (h : c = ' ' ∨ c = '\t' ∨ c = '\r') (rest : List Char) :
    read (c :: rest) = blank rest := by
  simp [read, isBlank_iff.2 h]

theorem read_of_spells {spelling literal rest : List Char} {kind : Kind}
    (h : Spells spelling kind literal) (hrest : ∀ c, rest.head? = some c → ¬kind.GoesOn c) :
    read (spelling ++ rest) = token kind literal spelling.length rest := by
  have hwords {run : List Char} (hrun : ∀ d ∈ run, WordChar d)
      (hend : ∀ d, rest.head? = some d → ¬WordChar d) :=
    span_append (p := isWordChar) (fun d hd => isWordChar_iff.2 (hrun d hd))
      fun d hd => by simpa [← isWordChar_iff] using hend d hd
  cases h with
  | @word c cs start run =>
    obtain ⟨hblank, hquote⟩ := plain_of_class (p := fun c => c.isAlpha || c == '_') (c := c)
      (by simpa using start) (by decide)
    obtain ⟨hdigit, hsigil, hword⟩ := class_of_word_start start
    obtain ⟨htake, hdrop⟩ := hwords run hrest
    simp [read, hblank, hquote, hdigit, hsigil, hword, htake, hdrop]
  | @number c cs run =>
    have hc := run c (by simp)
    obtain ⟨hblank, hquote⟩ := plain_of_class hc (by decide)
    have hend : ∀ d, rest.head? = some d → d.isDigit = false := by simpa [Kind.GoesOn] using hrest
    obtain ⟨htake, hdrop⟩ := span_append (fun d hd => run d (List.mem_cons_of_mem c hd)) hend
    simp [read, hblank, hquote, hc, htake, hdrop]
  | @sigil c _ cs known run =>
    have hs := sigil?_eq_some.2 known
    obtain ⟨hblank, hquote⟩ := plain_of_class (p := fun c => (sigil? c).isSome) (c := c)
      (by simp [hs]) (by decide)
    have hdigit : c.isDigit = false := by
      have hplain := isAlphanum_of_sigil known
      rw [Char.isAlphanum, Bool.or_eq_false_iff] at hplain
      exact hplain.2
    obtain ⟨htake, hdrop⟩ := hwords run fun d hd => (goesOn_of_sigil known).not.1 (hrest d hd)
    simp [read, hblank, hquote, hdigit, hs, htake, hdrop]
  | string body => simp [read, isBlank, StringBody.read_of_decodes body rest]

end Lexeme

namespace Line

variable {line column : Nat}

theorem readFrom_eq (line column : Nat) (cs : List Char) :
    readFrom line column cs =
      match Lexeme.read cs with
      | .done => .ok []
      | .blank rest => readFrom line (column + 1) rest
      | .token kind literal width rest =>
        (readFrom line (column + width) rest).map
          (⟨kind, String.ofList literal, ⟨line, column⟩⟩ :: ·)
      | .bad offset cause => .error ⟨⟨line, column + offset⟩, cause⟩ := by
  rw [readFrom]
  split <;> rename_i h <;> simp only [h]

theorem readFrom_gap {gap : List Char} (h : IsGap gap) (rest : List Char) :
    readFrom line column (gap ++ rest) = readFrom line (column + gap.length) rest := by
  induction gap generalizing column with
  | nil => rfl
  | cons c gap ih =>
    rw [List.cons_append, readFrom_eq, Lexeme.read_of_blank (h c (by simp))]
    simp only [ih fun d hd => h d (by simp [hd]), List.length_cons]
    rw [Nat.add_assoc, Nat.add_comm 1]

theorem readFrom_of_describes {l : Layout} {cs : List Char} {tokens : Line}
    (h : l.Describes line column cs tokens) : readFrom line column cs = .ok tokens := by
  obtain ⟨indent, items, tail⟩ := l
  induction items generalizing column indent cs tokens with
  | nil =>
    obtain ⟨rfl, rfl, hindent, htail⟩ := Layout.describes_nil.1 h
    rw [readFrom_gap hindent, readFrom_eq, Lexeme.read_of_isTail htail]
  | cons w items ih =>
    obtain ⟨t, ts, rest, rfl, rfl, hindent, hspells, hplace, hmax, hrest⟩ :=
      Layout.describes_cons.1 h
    rw [readFrom_gap hindent, readFrom_eq, Lexeme.read_of_spells hspells hmax]
    simp [ih _ hrest, Except.map, ← hplace]

theorem exists_layout {cs : List Char} {tokens : Line}
    (h : readFrom line column cs = .ok tokens) :
    ∃ l : Layout, l.Describes line column cs tokens := by
  fun_induction readFrom line column cs generalizing tokens with
  | case1 column cs hread =>
    cases h
    have hfront := hread ▸ Lexeme.front_read cs
    cases hfront with
    | done tail => exact ⟨⟨[], [], cs⟩, Layout.describes_nil.2 ⟨rfl, rfl, by simp [IsGap], tail⟩⟩
  | case2 column cs rest hread _ ih =>
    obtain ⟨⟨indent, items, tail⟩, hl⟩ := ih h
    have hfront := hread ▸ Lexeme.front_read cs
    cases hfront with
    | @blank c _ cut hc =>
      subst cut
      exact ⟨⟨c :: indent, items, tail⟩, hl.blank hc⟩
  | case3 column cs kind literal width rest hread _ ih =>
    cases hr : readFrom line (column + width) rest with
    | error e =>
      rw [hr] at h
      cases h
    | ok ts =>
      rw [hr] at h
      cases h
      obtain ⟨⟨indent, items, tail⟩, hl⟩ := ih hr
      have hfront := hread ▸ Lexeme.front_read cs
      cases hfront with
      | @token spelling _ _ _ cut spells maximal =>
        refine ⟨⟨[], ⟨spelling, indent⟩ :: items, tail⟩, Layout.describes_cons.2 ?_⟩
        exact ⟨_, ts, rest, rfl, cut, by simp [IsGap], by simpa using spells, rfl, maximal, hl⟩
  | case4 => cases h

end Line

namespace Layout

variable {line column : Nat} {cs : List Char}

theorem gap_unique {g₁ g₂ r₁ r₂ : List Char} (hg₁ : IsGap g₁) (hg₂ : IsGap g₂)
    (hr₁ : ∀ rest, Lexeme.read r₁ ≠ .blank rest) (hr₂ : ∀ rest, Lexeme.read r₂ ≠ .blank rest)
    (h : g₁ ++ r₁ = g₂ ++ r₂) : g₁ = g₂ ∧ r₁ = r₂ := by
  have hstop {r : List Char} (hr : ∀ rest, Lexeme.read r ≠ .blank rest) (c : Char)
      (hc : r.head? = some c) : isBlank c = false := by
    obtain ⟨rest, rfl⟩ := List.head?_eq_some_iff.1 hc
    rw [Bool.eq_false_iff]
    intro hblank
    exact hr rest (Lexeme.read_of_blank (isBlank_iff.1 hblank) rest)
  obtain ⟨htake₁, hdrop₁⟩ := span_append (fun c hc => isBlank_iff.2 (hg₁ c hc)) (hstop hr₁)
  obtain ⟨htake₂, hdrop₂⟩ := span_append (fun c hc => isBlank_iff.2 (hg₂ c hc)) (hstop hr₂)
  rw [h] at htake₁ hdrop₁
  exact ⟨htake₁.symm.trans htake₂, hdrop₁.symm.trans hdrop₂⟩

theorem Describes.eq {l₁ l₂ : Layout} {ts₁ ts₂ : Line} (h₁ : l₁.Describes line column cs ts₁)
    (h₂ : l₂.Describes line column cs ts₂) : l₁ = l₂ := by
  obtain ⟨indent₁, items₁, tail₁⟩ := l₁
  obtain ⟨indent₂, items₂, tail₂⟩ := l₂
  -- What comes after the indentation is read alike from both, as the end or as a token.
  induction items₁ generalizing column cs ts₁ ts₂ indent₁ indent₂ items₂ with
  | nil =>
    obtain ⟨-, rfl, hgap₁, htail₁⟩ := describes_nil.1 h₁
    have hread₁ := Lexeme.read_of_isTail htail₁
    cases items₂ with
    | nil =>
      obtain ⟨-, hcut, hgap₂, htail₂⟩ := describes_nil.1 h₂
      have hread₂ := Lexeme.read_of_isTail htail₂
      obtain ⟨rfl, rfl⟩ := gap_unique hgap₁ hgap₂ (by simp [hread₁]) (by simp [hread₂]) hcut
      rfl
    | cons w₂ items₂ =>
      obtain ⟨t₂, -, rest₂, -, hcut, hgap₂, hspells₂, -, hmax₂, -⟩ := describes_cons.1 h₂
      have hread₂ := Lexeme.read_of_spells hspells₂ hmax₂
      obtain ⟨-, rfl⟩ := gap_unique hgap₁ hgap₂ (by simp [hread₁]) (by simp [hread₂]) hcut
      rw [hread₁] at hread₂
      cases hread₂
  | cons w₁ items₁ ih =>
    obtain ⟨t₁, ts₁, rest₁, -, rfl, hgap₁, hspells₁, -, hmax₁, hrest₁⟩ := describes_cons.1 h₁
    have hread₁ := Lexeme.read_of_spells hspells₁ hmax₁
    cases items₂ with
    | nil =>
      obtain ⟨-, hcut, hgap₂, htail₂⟩ := describes_nil.1 h₂
      have hread₂ := Lexeme.read_of_isTail htail₂
      obtain ⟨-, rfl⟩ := gap_unique hgap₁ hgap₂ (by simp [hread₁]) (by simp [hread₂]) hcut
      rw [hread₁] at hread₂
      cases hread₂
    | cons w₂ items₂ =>
      obtain ⟨t₂, ts₂, rest₂, -, hcut, hgap₂, hspells₂, -, hmax₂, hrest₂⟩ := describes_cons.1 h₂
      have hread₂ := Lexeme.read_of_spells hspells₂ hmax₂
      obtain ⟨rfl, hsame⟩ := gap_unique hgap₁ hgap₂ (by simp [hread₁]) (by simp [hread₂]) hcut
      rw [hsame, hread₂] at hread₁
      obtain ⟨-, -, hwidth, rfl⟩ := Lexeme.token.inj hread₁
      obtain ⟨hspelling, -⟩ := List.append_inj hsame hwidth.symm
      rw [hspelling] at hrest₁
      obtain ⟨spelling₁, gap₁⟩ := w₁
      obtain ⟨spelling₂, gap₂⟩ := w₂
      cases ih _ hrest₁ _ _ hrest₂
      cases hspelling
      rfl

end Layout

/-- Reading a line gives tokens exactly if the line, up to its end, can be taken apart into blanks,
spellings of these tokens and perhaps a comment; and there is only one way to take it apart. -/
theorem line_grammar (text : String) (n : Nat) (tokens : Line) :
    (Line.ofChars n text.toList = .ok tokens ↔
      ∃ l : Layout, l.Describes n 0 (text.toList.takeWhile (· != '\n')) tokens) ∧
    ∀ (l₁ l₂ : Layout) (ts₁ ts₂ : Line),
      l₁.Describes n 0 (text.toList.takeWhile (· != '\n')) ts₁ →
      l₂.Describes n 0 (text.toList.takeWhile (· != '\n')) ts₂ → l₁ = l₂ ∧ ts₁ = ts₂ := by
  refine ⟨⟨Line.exists_layout, fun ⟨_, hl⟩ => Line.readFrom_of_describes hl⟩, ?_⟩
  intro l₁ l₂ ts₁ ts₂ h₁ h₂
  have hread₁ := Line.readFrom_of_describes h₁
  rw [Line.readFrom_of_describes h₂] at hread₁
  cases hread₁
  exact ⟨h₁.eq h₂, rfl⟩

def touching : String :=
  "\tjeq :x\"a;\\n\"3y ;c\nz"

theorem line_grammar_of_touching :
    ∃ l : Layout, l.Describes 3 0 (touching.toList.takeWhile (· != '\n'))
        [⟨.word, "jeq", ⟨3, 1⟩⟩, ⟨.label, "x", ⟨3, 5⟩⟩, ⟨.string, "a;\n", ⟨3, 7⟩⟩,
          ⟨.number, "3", ⟨3, 13⟩⟩, ⟨.word, "y", ⟨3, 14⟩⟩] ∧
      ∀ (l' : Layout) (tokens : Line),
        l'.Describes 3 0 (touching.toList.takeWhile (· != '\n')) tokens → l' = l := by
  have hread : Line.ofChars 3 touching.toList = .ok
      [⟨.word, "jeq", ⟨3, 1⟩⟩, ⟨.label, "x", ⟨3, 5⟩⟩, ⟨.string, "a;\n", ⟨3, 7⟩⟩,
        ⟨.number, "3", ⟨3, 13⟩⟩, ⟨.word, "y", ⟨3, 14⟩⟩] := by decide +kernel
  obtain ⟨hiff, honly⟩ := line_grammar touching 3 _
  obtain ⟨l, hl⟩ := hiff.1 hread
  exact ⟨l, hl, fun l' tokens hl' => (honly l' l tokens _ hl' hl).1⟩

end Stackline
