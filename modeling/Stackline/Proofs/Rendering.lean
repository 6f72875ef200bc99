import Stackline.Proofs.Grammar
import Stackline.Proofs.Lines

/-! Writing tokens down. Each has a form in which it stands in a text, and lines of tokens are
written with one blank between them and a newline at the end. Reading gives them back; and since
reading never gives a token that could not be written, all that was ever read can be written. -/
namespace Stackline

def escaped : Char → List Char
  | '\\' => ['\\', '\\']
  | '"' => ['\\', '"']
  | '\n' => ['\\', 'n']
  | '\r' => ['\\', 'r']
  | '\x00' => ['\\', '0']
  | c => [c]

namespace Token

def Lexical (t : Token) : Prop :=
  match t.kind with
  | .word =>
    t.literal ≠ "" ∧ (∀ c ∈ t.literal.toList, WordChar c) ∧
      ∀ c, t.literal.toList.head? = some c → c.isDigit = false
  | .number => t.literal ≠ "" ∧ ∀ c ∈ t.literal.toList, c.isDigit = true
  | .directive | .label | .reference => ∀ c ∈ t.literal.toList, WordChar c
  | .string => True
  | .endOfLine => False

def source (t : Token) : List Char :=
  match t.kind with
  | .directive => '.' :: t.literal.toList
  | .label => ':' :: t.literal.toList
  | .reference => '$' :: t.literal.toList
  | .string => '"' :: (t.literal.toList.flatMap escaped ++ ['"'])
  | .word | .number | .endOfLine => t.literal.toList

def content (t : Token) : Kind × String :=
  (t.kind, t.literal)

end Token

namespace Line

def Lexical (line : Line) : Prop :=
  ∀ t ∈ line, t.Lexical

def source (line : Line) : List Char :=
  [' '].intercalate (line.map Token.source)

def column (line : Line) (j : Nat) : Nat :=
  ((line.take j).flatMap fun t => t.source ++ [' ']).length

/-- A line with its tokens where they are when it is written from column `start` of line `i` on. -/
def placed (i start : Nat) (line : Line) : Line :=
  line.mapIdx fun j t => t.moveTo ⟨i, start + line.column j⟩

end Line

def source (lines : List Line) : String :=
  String.ofList (lines.flatMap fun line => line.source ++ ['\n'])

theorem decodes_escaped (text : List Char) : Decodes (text.flatMap escaped) text := by
  induction text with
  | nil => exact .nil
  | cons c text ih =>
    rw [List.flatMap_cons]
    unfold escaped
    split
    · exact .escape (by decide) ih
    · exact .escape (by decide) ih
    · exact .escape (by decide) ih
    · exact .escape (by decide) ih
    · exact .escape (by decide) ih
    · rename_i hslash hquote _ _ _
      exact .raw hquote hslash ih

theorem wordStart_of_not_isDigit {c : Char} (h : WordChar c) (hd : c.isDigit = false) :
    c.isAlpha = true ∨ c = '_' := by
  simpa [WordChar, hd] using h

theorem Token.Lexical.spells {t : Token} (h : t.Lexical) :
    Spells t.source t.kind t.literal.toList := by
  obtain ⟨kind, literal, position⟩ := t
  cases kind with
  | word =>
    obtain ⟨hne, hrun, hstart⟩ := h
    obtain ⟨c, cs, hcs⟩ := List.exists_cons_of_ne_nil (mt String.toList_eq_nil_iff.1 hne)
    simp only [hcs, Token.source] at hrun hstart ⊢
    refine .word (wordStart_of_not_isDigit (hrun c (by simp)) (hstart c rfl)) ?_
    exact fun d hd => hrun d (List.mem_cons_of_mem c hd)
  | number =>
    obtain ⟨hne, hrun⟩ := h
    obtain ⟨c, cs, hcs⟩ := List.exists_cons_of_ne_nil (mt String.toList_eq_nil_iff.1 hne)
    simp only [hcs, Token.source] at hrun ⊢
    exact .number hrun
  | string => exact .string (decodes_escaped literal.toList)
  | directive | label | reference => exact .sigil (by simp [sigils]) h
  | endOfLine => exact h.elim

theorem Token.lexical_of_spells {t : Token} {spelling : List Char}
    (h : Spells spelling t.kind t.literal.toList) : t.Lexical := by
  obtain ⟨kind, literal, position⟩ := t
  generalize hcs : literal.toList = cs at h
  have hne {c : Char} {cs : List Char} (hcs : literal.toList = c :: cs) : literal ≠ "" := by
    intro hempty
    simp [hempty] at hcs
  cases h with
  | @word c cs start run =>
    simp only [Lexical, hcs]
    refine ⟨hne hcs, ?_, ?_⟩
    · intro d hd
      cases List.mem_cons.1 hd with
      | inl hfirst =>
        rw [hfirst]
        exact isWordChar_iff.1 (class_of_word_start start).2.2
      | inr hlater => exact run d hlater
    · intro d hd
      cases hd
      exact (class_of_word_start start).1
  | number run =>
    simp only [Lexical, hcs]
    exact ⟨hne hcs, run⟩
  | sigil known run =>
    simp only [sigils, List.mem_cons, Prod.mk.injEq, List.not_mem_nil, or_false] at known
    obtain ⟨-, rfl⟩ | ⟨-, rfl⟩ | ⟨-, rfl⟩ := known <;> simpa only [Lexical, hcs] using run
  | string body => trivial

theorem escaped_no_break (c : Char) : ∀ d ∈ escaped c, d ≠ '\n' ∧ d ≠ '\r' := by
  unfold escaped
  split <;> simp_all

theorem WordChar.no_break {c : Char} (h : WordChar c) : c ≠ '\n' ∧ c ≠ '\r' := by
  have hword := isWordChar_iff.2 h
  constructor
  · intro heq
    rw [heq] at hword
    exact absurd hword (by decide)
  · intro heq
    rw [heq] at hword
    exact absurd hword (by decide)

theorem Kind.not_goesOn_blank (kind : Kind) : ¬kind.GoesOn ' ' := by
  cases kind <;> simp [GoesOn, WordChar]

theorem Token.Lexical.no_break {t : Token} (h : t.Lexical) :
    ∀ c ∈ t.source, c ≠ '\n' ∧ c ≠ '\r' := by
  intro c hc
  obtain ⟨kind, literal, position⟩ := t
  cases kind with
  | word => exact (h.2.1 c hc).no_break
  | number => exact WordChar.no_break (Or.inr (Or.inl (h.2 c hc)))
  | string =>
    simp only [source, List.mem_cons, List.mem_append, List.mem_flatMap, List.not_mem_nil,
      or_false] at hc
    obtain rfl | ⟨d, -, hd⟩ | rfl := hc
    · decide
    · exact escaped_no_break d c hd
    · decide
  | directive | label | reference =>
    obtain rfl | hname := List.mem_cons.1 hc
    · decide
    · exact (h c hname).no_break
  | endOfLine => exact h.elim

namespace Line

theorem source_singleton (t : Token) : source [t] = t.source := by
  simp [source]

theorem source_cons_cons (t u : Token) (line : Line) :
    source (t :: u :: line) = t.source ++ ' ' :: source (u :: line) := by
  simp [source, List.intercalate_cons_cons]

theorem Lexical.no_break {line : Line} (h : line.Lexical) :
    ∀ c ∈ line.source, c ≠ '\n' ∧ c ≠ '\r' := by
  induction line with
  | nil => simp [source]
  | cons t line ih =>
    have hfirst := (h t List.mem_cons_self).no_break
    have hlater := ih fun u hu => h u (List.mem_cons_of_mem t hu)
    cases line with
    | nil => rwa [source_singleton]
    | cons u line =>
      intro c hc
      rw [source_cons_cons, List.mem_append, List.mem_cons] at hc
      obtain hc | rfl | hc := hc
      · exact hfirst c hc
      · decide
      · exact hlater c hc

theorem placed_cons (i start : Nat) (t : Token) (line : Line) :
    placed i start (t :: line) =
      t.moveTo ⟨i, start⟩ :: placed i (start + t.source.length + 1) line := by
  have hcolumn (j : Nat) : column (t :: line) (j + 1) = t.source.length + 1 + column line j := by
    simp only [column, List.take_succ_cons, List.flatMap_cons, List.length_append, List.length_cons,
      List.length_nil]
  simp only [placed, List.mapIdx_cons, hcolumn, ← Nat.add_assoc]
  rfl

theorem readFrom_token {t : Token} (h : t.Lexical) {rest : List Char}
    (hrest : ∀ c, rest.head? = some c → ¬t.kind.GoesOn c) (i start : Nat) :
    readFrom i start (t.source ++ rest) =
      (readFrom i (start + t.source.length) rest).map (t.moveTo ⟨i, start⟩ :: ·) := by
  rw [readFrom_eq, Lexeme.read_of_spells h.spells hrest]
  simp only [String.ofList_toList]
  rfl

theorem readFrom_source {line : Line} (h : line.Lexical) (i start : Nat) :
    readFrom i start line.source = .ok (line.placed i start) := by
  have hend (column : Nat) : readFrom i column [] = .ok [] := by
    rw [readFrom_eq]
    rfl
  induction line generalizing start with
  | nil => exact hend start
  | cons t line ih =>
    have hfirst := h t List.mem_cons_self
    have hlater := ih fun u hu => h u (List.mem_cons_of_mem t hu)
    rw [placed_cons]
    cases line with
    | nil =>
      rw [source_singleton, ← List.append_nil t.source, readFrom_token hfirst (by simp), hend]
      rfl
    | cons u line =>
      have hblank : readFrom i (start + t.source.length) (' ' :: source (u :: line)) =
          readFrom i (start + t.source.length + 1) (source (u :: line)) := by
        rw [readFrom_eq, Lexeme.read_of_blank (Or.inl rfl)]
      have hnext : ∀ c, (' ' :: source (u :: line)).head? = some c → ¬t.kind.GoesOn c := by
        intro c hc
        cases hc
        exact t.kind.not_goesOn_blank
      rw [source_cons_cons, readFrom_token hfirst hnext, hblank, hlater]
      rfl

theorem ofChars_source {line : Line} (h : line.Lexical) (i : Nat) :
    ofChars i line.source = .ok (line.placed i 0) := by
  rw [ofChars_of_line fun hmem => (h.no_break _ hmem).1 rfl, readFrom_source h]

end Line

theorem lines_source {lines : List Line} (h : ∀ line ∈ lines, line.Lexical) :
    Text.lines (source lines).toList = lines.map Line.source := by
  rw [source, String.toList_ofList]
  induction lines with
  | nil => rfl
  | cons line lines ih =>
    have hbreak := (h line List.mem_cons_self).no_break
    rw [List.flatMap_cons, Text.lines_append (Or.inr ⟨_, rfl⟩),
      Text.lines_of_line fun hmem => (hbreak _ hmem).1 rfl,
      Text.chomp_newline fun hmem => (hbreak _ hmem).2 rfl,
      ih fun l hl => h l (List.mem_cons_of_mem line hl)]
    rfl

theorem Line.readAll_source {lines : List Line} (h : ∀ line ∈ lines, line.Lexical) (index : Nat) :
    readAll index (lines.map Line.source) =
      .ok (lines.mapIdx fun i line => line.placed (index + i) 0) := by
  induction lines generalizing index with
  | nil => rfl
  | cons line lines ih =>
    have hrest := ih (fun l hl => h l (List.mem_cons_of_mem line hl)) (index + 1)
    refine readAll_cons_ok.2 ⟨_, _, ofChars_source (h line List.mem_cons_self) index, hrest, ?_⟩
    simp only [List.mapIdx_cons, Nat.add_zero, Nat.add_assoc, Nat.add_comm 1]

theorem ofText_source {lines : List Line} (h : ∀ line ∈ lines, line.Lexical) :
    Line.ofText (source lines) = .ok (lines.mapIdx fun i line => line.placed i 0) := by
  have hread := Line.readAll_source h 0
  rw [Line.ofText, lines_source h, hread]
  simp only [Nat.zero_add]

theorem Line.lexical_of_ofText {text : String} {lines : List Line}
    (h : ofText text = .ok lines) : ∀ line ∈ lines, line.Lexical := by
  intro line hline t ht
  obtain ⟨i, hi⟩ := List.mem_iff_getElem?.1 hline
  obtain ⟨j, hj⟩ := List.mem_iff_getElem?.1 ht
  obtain ⟨cs, -, hread⟩ := ofChars_of_readAll h hi
  obtain ⟨l, hl⟩ := exists_layout hread
  have hlt : j < l.items.length := by
    rw [hl.count]
    exact (List.getElem?_eq_some_iff.1 hj).1
  exact Token.lexical_of_spells (hl.spelled j _ t (List.getElem?_eq_getElem hlt) hj)

theorem Line.content_placed (i start : Nat) (line : Line) :
    (line.placed i start).map Token.content = line.map Token.content := by
  induction line generalizing start with
  | nil => rfl
  | cons t line ih =>
    rw [placed_cons, List.map_cons, ih]
    rfl

theorem content_placed_lines (lines : List Line) :
    (lines.mapIdx fun i line => line.placed i 0).map (·.map Token.content) =
      lines.map (·.map Token.content) := by
  apply List.ext_getElem?
  intro i
  simp only [List.getElem?_map, List.getElem?_mapIdx, Option.map_map, Function.comp_def,
    Line.content_placed]

/-- Lines of tokens that can be written are read back from their text, each token where it was
written; and all lines that are read are such lines, so that they are read back from a text of their
own with the same kinds and literals. -/
theorem written_lines_are_read_back :
    (∀ lines : List Line, (∀ line ∈ lines, ∀ t ∈ line, t.Lexical) →
      Line.ofText (source lines) = .ok (lines.mapIdx fun i line => line.placed i 0)) ∧
    ∀ (text : String) (lines : List Line), Line.ofText text = .ok lines →
      (∀ line ∈ lines, ∀ t ∈ line, t.Lexical) ∧
        ∃ again, Line.ofText (source lines) = .ok again ∧
          again.map (·.map Token.content) = lines.map (·.map Token.content) := by
  refine ⟨fun lines h => ofText_source h, ?_⟩
  intro text lines h
  have hlexical := Line.lexical_of_ofText h
  exact ⟨hlexical, _, ofText_source hlexical, content_placed_lines lines⟩

def awkward : List Line :=
  [[⟨.string, "a;\"\\\n\r\x00", ⟨7, 7⟩⟩, ⟨.label, "", ⟨7, 7⟩⟩, ⟨.word, "_x1", ⟨7, 7⟩⟩], [],
    [⟨.number, "007", ⟨7, 7⟩⟩, ⟨.reference, "9", ⟨7, 7⟩⟩]]

theorem awkward_lines_are_read_back :
    (∀ line ∈ awkward, ∀ t ∈ line, t.Lexical) ∧
      Line.ofText (source awkward) = .ok
        [[⟨.string, "a;\"\\\n\r\x00", ⟨0, 0⟩⟩, ⟨.label, "", ⟨0, 15⟩⟩, ⟨.word, "_x1", ⟨0, 17⟩⟩], [],
          [⟨.number, "007", ⟨2, 0⟩⟩, ⟨.reference, "9", ⟨2, 4⟩⟩]] ∧
      ∃ again, Line.ofText (source awkward) = .ok again ∧
        again.map (·.map Token.content) = awkward.map (·.map Token.content) := by
  have hlexical : ∀ line ∈ awkward, ∀ t ∈ line, t.Lexical := by
    simp [awkward, Token.Lexical, WordChar]
  have hread := written_lines_are_read_back.1 awkward hlexical
  exact ⟨hlexical, hread, (written_lines_are_read_back.2 _ _ hread).2⟩

end Stackline
