import Stackline.Proofs.Grammar
import Stackline.Proofs.Lines

/-! Lines that cannot be read. Something in them is neither blank, token nor comment, and all that
stands before it can be read by itself. If it is a string that is not closed, more characters can
help; otherwise nothing that is written behind it changes what is said about it. -/
namespace Stackline

def StartsNothing (c : Char) : Prop :=
  ¬(c = ' ' ∨ c = '\t' ∨ c = '\r') ∧ c ≠ '"' ∧ c ≠ ';' ∧ ¬WordChar c ∧ ∀ kind, (c, kind) ∉ sigils

theorem Decodes.append {front back text text' : List Char} (h : Decodes front text)
    (h' : Decodes back text') : Decodes (front ++ back) (text ++ text') := by
  induction h with
  | nil => exact h'
  | raw notQuote notBackslash _ ih => exact .raw notQuote notBackslash ih
  | escape known _ ih => exact .escape known ih

namespace StringBody

theorem cons_eq_unterminated {b : StringBody} {c : Char} {n : Nat}
    (h : b.cons c n = unterminated) : b = unterminated := by
  cases b with
  | unterminated => rfl
  | _ => cases h

theorem read_eq_unterminated {cs : List Char} :
    read cs = unterminated ↔
      ∃ body text, Decodes body text ∧ (cs = body ∨ cs = body ++ ['\\']) := by
  constructor
  · intro h
    fun_induction read cs with
    | case1 => exact ⟨[], [], .nil, Or.inl rfl⟩
    | case2 => cases h
    | case3 => exact ⟨[], [], .nil, Or.inr rfl⟩
    | case4 e cs d hd _ ih =>
      obtain ⟨body, text, hbody, hcut⟩ := ih (cons_eq_unterminated h)
      refine ⟨'\\' :: e :: body, d :: text, .escape (unescape?_eq_some.1 hd) hbody, ?_⟩
      simpa using hcut
    | case5 => cases h
    | case6 c cs hquote hslash ih =>
      obtain ⟨body, text, hbody, hcut⟩ := ih (cons_eq_unterminated h)
      exact ⟨c :: body, c :: text, .raw hquote hslash hbody, by simpa using hcut⟩
  · intro h
    obtain ⟨body, text, hbody, hcut⟩ := h
    cases hcut with
    | inl hwhole =>
      rw [hwhole, ← List.append_nil body, read_append hbody]
      rfl
    | inr hdangling =>
      rw [hdangling, read_append hbody]
      rfl

theorem cons_eq_badEscape {b : StringBody} {c e : Char} {n offset : Nat}
    (h : b.cons c n = badEscape offset e) : ∃ k, b = badEscape k e ∧ offset = n + k := by
  cases b with
  | badEscape k e' =>
    cases h
    exact ⟨k, rfl, rfl⟩
  | _ => cases h

theorem read_eq_badEscape {cs : List Char} {offset : Nat} {e : Char} :
    read cs = badEscape offset e ↔
      ∃ body text after, cs = body ++ '\\' :: e :: after ∧ offset = body.length + 1 ∧
        Decodes body text ∧ ∀ c, (e, c) ∉ escapes := by
  constructor
  · intro h
    fun_induction read cs generalizing offset with
    | case1 => cases h
    | case2 => cases h
    | case3 => cases h
    | case4 e' cs d hd _ ih =>
      obtain ⟨k, hk, rfl⟩ := cons_eq_badEscape h
      obtain ⟨body, text, after, rfl, rfl, hbody, hunknown⟩ := ih hk
      refine ⟨'\\' :: e' :: body, d :: text, after, rfl, ?_, ?_, hunknown⟩
      · simp only [List.length_cons]
        omega
      · exact .escape (unescape?_eq_some.1 hd) hbody
    | case5 e' cs hnone =>
      cases h
      refine ⟨[], [], cs, rfl, rfl, .nil, ?_⟩
      intro c hc
      rw [unescape?_eq_some.2 hc] at hnone
      cases hnone
    | case6 c cs hquote hslash ih =>
      obtain ⟨k, hk, rfl⟩ := cons_eq_badEscape h
      obtain ⟨body, text, after, rfl, rfl, hbody, hunknown⟩ := ih hk
      refine ⟨c :: body, c :: text, after, rfl, ?_, .raw hquote hslash hbody, hunknown⟩
      simp only [List.length_cons]
      omega
  · intro h
    obtain ⟨body, text, after, rfl, rfl, hbody, hunknown⟩ := h
    have hnone : unescape? e = none := by
      rw [Option.eq_none_iff_forall_ne_some]
      exact fun c hc => hunknown c (unescape?_eq_some.1 hc)
    rw [read_append hbody, read.eq_def]
    simp [hnone, behind]

end StringBody

namespace Lexeme

/-- The characters start with something that cannot be read: what is wrong with it, and where that
shows. -/
inductive Unreadable (cs : List Char) : Nat → Cause → Prop
  | illegal {c : Char} {rest : List Char} (cut : cs = c :: rest) (starts : StartsNothing c) :
      Unreadable cs 0 (.illegalCharacter c)
  | escape {e : Char} {body text rest : List Char} (cut : cs = '"' :: (body ++ '\\' :: e :: rest))
      (decodes : Decodes body text) (unknown : ∀ c, (e, c) ∉ escapes) :
      Unreadable cs (body.length + 2) (.invalidEscape e)
  | unclosed {body text : List Char} (cut : cs = '"' :: body) (decodes : Decodes body text) :
      Unreadable cs 0 .unterminatedString
  | dangling {body text : List Char} (cut : cs = '"' :: (body ++ ['\\']))
      (decodes : Decodes body text) : Unreadable cs 0 .unterminatedString

variable {cs : List Char} {offset : Nat} {cause : Cause}

theorem unreadable_of_read (h : read cs = bad offset cause) : Unreadable cs offset cause := by
  revert h
  fun_cases read cs with
  | case4 cs hb =>
    intro h
    cases h
    obtain ⟨body, text, hbody, hcut⟩ := StringBody.read_eq_unterminated.1 hb
    cases hcut with
    | inl hwhole => exact .unclosed (by rw [hwhole]) hbody
    | inr hdangling => exact .dangling (by rw [hdangling]) hbody
  | case5 cs k e hb =>
    intro h
    cases h
    obtain ⟨body, text, after, rfl, rfl, hbody, hunknown⟩ := StringBody.read_eq_badEscape.1 hb
    exact .escape rfl hbody hunknown
  | case10 c cs hblank hquote hdigit hsigil hword hcomment =>
    intro h
    cases h
    rw [isBlank_iff] at hblank
    rw [isWordChar_iff] at hword
    refine .illegal rfl ⟨hblank, hquote, hcomment, hword, ?_⟩
    intro kind hkind
    rw [sigil?_eq_some.2 hkind] at hsigil
    cases hsigil
  | _ =>
    intro h
    cases h

theorem read_of_startsNothing {c : Char} (h : StartsNothing c) (rest : List Char) :
    read (c :: rest) = bad 0 (.illegalCharacter c) := by
  obtain ⟨hblank, hquote, hcomment, hword, hsigil⟩ := h
  have hdigit : ¬c.isDigit = true := fun hd => hword (Or.inr (Or.inl hd))
  have hnone : sigil? c = none := by
    rw [Option.eq_none_iff_forall_ne_some]
    exact fun kind hkind => hsigil kind (sigil?_eq_some.1 hkind)
  rw [← isBlank_iff] at hblank
  rw [← isWordChar_iff] at hword
  simp [read, hblank, hquote, hdigit, hnone, hword, hcomment]

theorem Unreadable.read_eq (h : Unreadable cs offset cause) : read cs = bad offset cause := by
  cases h with
  | illegal cut starts =>
    subst cut
    exact read_of_startsNothing starts _
  | @escape e body text rest cut decodes unknown =>
    subst cut
    have hb := StringBody.read_eq_badEscape.2 ⟨body, text, rest, rfl, rfl, decodes, unknown⟩
    simp [read, isBlank, hb]
  | unclosed cut decodes =>
    subst cut
    have hb := StringBody.read_eq_unterminated.2 ⟨_, _, decodes, Or.inl rfl⟩
    simp [read, isBlank, hb]
  | dangling cut decodes =>
    subst cut
    have hb := StringBody.read_eq_unterminated.2 ⟨_, _, decodes, Or.inr rfl⟩
    simp [read, isBlank, hb]

theorem Unreadable.not_wordChar (h : Unreadable cs offset cause) {c : Char}
    (hc : cs.head? = some c) : ¬WordChar c := by
  have hquote : ¬WordChar '"' := by simp [WordChar]
  cases h with
  | illegal cut starts =>
    subst cut
    cases hc
    exact starts.2.2.2.1
  | escape cut | unclosed cut | dangling cut =>
    subst cut
    cases hc
    exact hquote

theorem Unreadable.append (h : Unreadable cs offset cause) (hcause : cause ≠ .unterminatedString)
    (more : List Char) : Unreadable (cs ++ more) offset cause := by
  cases h with
  | illegal cut starts => exact .illegal (by rw [cut, List.cons_append]) starts
  | @escape e body text rest cut decodes unknown =>
    have hcut : cs ++ more = '"' :: (body ++ '\\' :: e :: (rest ++ more)) := by simp [cut]
    exact .escape hcut decodes unknown
  | unclosed | dangling => exact absurd rfl hcause

end Lexeme

theorem Kind.GoesOn.wordChar {kind : Kind} {c : Char} (h : kind.GoesOn c) : WordChar c := by
  cases kind with
  | number => exact Or.inr (Or.inl h)
  | string | endOfLine => exact h.elim
  | word | directive | label | reference => exact h

namespace Line

/-- The characters, which start at the given column of the given line, are blanks and spellings of
these tokens to their end. No comment is open there. -/
inductive ReadsThrough (line : Nat) : Nat → List Char → Line → Prop
  | nil {column : Nat} : ReadsThrough line column [] []
  | blank {column : Nat} {c : Char} {cs : List Char} {tokens : Line}
      (hc : c = ' ' ∨ c = '\t' ∨ c = '\r') (rest : ReadsThrough line (column + 1) cs tokens) :
      ReadsThrough line column (c :: cs) tokens
  | token {column : Nat} {spelling literal cs : List Char} {kind : Kind} {tokens : Line}
      (spells : Spells spelling kind literal)
      (maximal : ∀ c, cs.head? = some c → ¬kind.GoesOn c)
      (rest : ReadsThrough line (column + spelling.length) cs tokens) :
      ReadsThrough line column (spelling ++ cs)
        (⟨kind, String.ofList literal, ⟨line, column⟩⟩ :: tokens)

variable {line column : Nat} {before rest : List Char} {tokens : Line} {e : Error}

/-- What can be read to its end is read alike in front of anything that its last token does not
take. -/
theorem ReadsThrough.readFrom_append (h : ReadsThrough line column before tokens)
    (hrest : ∀ c, rest.head? = some c → ¬WordChar c) :
    readFrom line column (before ++ rest) =
      (readFrom line (column + before.length) rest).map (tokens ++ ·) := by
  induction h with
  | @nil column => cases hr : readFrom line column rest <;> simp [Except.map, hr]
  | @blank column c cs tokens hc _ ih =>
    have hcolumn : column + (c :: cs).length = column + 1 + cs.length := by
      simp only [List.length_cons]
      omega
    rw [List.cons_append, readFrom_eq, Lexeme.read_of_blank hc, hcolumn]
    exact ih
  | @token column spelling literal cs kind tokens spells maximal _ ih =>
    have hmax : ∀ c, (cs ++ rest).head? = some c → ¬kind.GoesOn c := by
      intro c hc
      cases cs with
      | nil => exact fun hgoes => hrest c hc hgoes.wordChar
      | cons d cs => exact maximal c hc
    rw [List.append_assoc, readFrom_eq, Lexeme.read_of_spells spells hmax, List.length_append,
      ← Nat.add_assoc]
    simp only [ih]
    cases readFrom line (column + spelling.length + cs.length) rest <;> rfl

theorem ReadsThrough.readFrom_eq_ok (h : ReadsThrough line column before tokens) :
    readFrom line column before = .ok tokens := by
  have hend : ∀ c, ([] : List Char).head? = some c → ¬WordChar c := by simp
  have hread := h.readFrom_append hend
  rw [List.append_nil, readFrom_eq line _ []] at hread
  simpa [Lexeme.read, Except.map] using hread

theorem exists_unreadable {cs : List Char} (h : readFrom line column cs = .error e) :
    ∃ before rest offset tokens, cs = before ++ rest ∧ ReadsThrough line column before tokens ∧
      Lexeme.Unreadable rest offset e.cause ∧
      e.position = ⟨line, column + before.length + offset⟩ := by
  fun_induction readFrom line column cs with
  | case1 => cases h
  | case2 column cs after hread _ ih =>
    obtain ⟨before, rest, offset, tokens, rfl, hbefore, hbad, hplace⟩ := ih h
    have hfront := hread ▸ Lexeme.front_read cs
    cases hfront with
    | @blank c _ cut hc =>
      subst cut
      refine ⟨c :: before, rest, offset, tokens, rfl, .blank hc hbefore, hbad, ?_⟩
      rw [hplace, List.length_cons, Nat.add_assoc column 1, Nat.add_comm 1]
  | case3 column cs kind literal width after hread _ ih =>
    cases hr : readFrom line (column + width) after with
    | ok ts =>
      rw [hr] at h
      cases h
    | error e' =>
      rw [hr] at h
      cases h
      obtain ⟨before, rest, offset, tokens, rfl, hbefore, hbad, hplace⟩ := ih hr
      have hfront := hread ▸ Lexeme.front_read cs
      cases hfront with
      | @token spelling _ _ _ cut spells maximal =>
        subst cut
        have hmax : ∀ c, before.head? = some c → ¬kind.GoesOn c := by
          intro c hc
          apply maximal c
          rw [List.head?_append, hc, Option.some_or]
        refine ⟨spelling ++ before, rest, offset, _, (List.append_assoc _ _ _).symm,
          .token spells hmax hbefore, hbad, ?_⟩
        rw [hplace, List.length_append, ← Nat.add_assoc column]
  | case4 column cs offset cause hread =>
    cases h
    exact ⟨[], cs, offset, [], rfl, .nil, Lexeme.unreadable_of_read hread, rfl⟩

theorem readFrom_of_unreadable (h : ReadsThrough line column before tokens) {offset : Nat}
    {cause : Cause} (hbad : Lexeme.Unreadable rest offset cause) :
    readFrom line column (before ++ rest) =
      .error ⟨⟨line, column + before.length + offset⟩, cause⟩ := by
  rw [h.readFrom_append fun _ hc => hbad.not_wordChar hc, readFrom_eq, hbad.read_eq]
  rfl

theorem readFrom_string (h : ReadsThrough line column before tokens) {body text : List Char}
    (hbody : Decodes body text) :
    readFrom line column (before ++ '"' :: (body ++ ['"'])) =
      .ok (tokens ++ [⟨.string, String.ofList text, ⟨line, column + before.length⟩⟩]) := by
  have hquote : ∀ c, ('"' :: (body ++ ['"'])).head? = some c → ¬WordChar c := by
    intro c hc
    cases hc
    simp [WordChar]
  have hstring : ReadsThrough line (column + before.length) ('"' :: (body ++ ['"']) ++ [])
      [⟨.string, String.ofList text, ⟨line, column + before.length⟩⟩] :=
    .token (.string hbody) (by simp) .nil
  rw [List.append_nil] at hstring
  rw [h.readFrom_append hquote, hstring.readFrom_eq_ok]
  rfl

end Line

/-- In a line that cannot be read, what stands before the mistake can be read. Whatever is written
behind the line, the same is wrong with it; only a string that is not closed can be mended, by a
quote, or by a backslash and a quote if it stops at a backslash. -/
theorem reading_errors_are_exact {text : String} (hline : '\n' ∉ text.toList) {n : Nat} {e : Error}
    (h : Line.ofChars n text.toList = .error e) :
    ∃ before rest offset tokens, text.toList = before ++ rest ∧
      Line.ofChars n before = .ok tokens ∧ Lexeme.Unreadable rest offset e.cause ∧
      e.position = ⟨n, before.length + offset⟩ ∧
      (e.cause ≠ .unterminatedString →
        ∀ more : String, Line.ofChars n (text ++ more).toList = .error e) ∧
      (e.cause = .unterminatedString →
        ∃ body decoded, Decodes body decoded ∧
          (rest = '"' :: body ∧
              Line.ofChars n (text ++ "\"").toList =
                .ok (tokens ++ [⟨.string, .ofList decoded, e.position⟩]) ∨
            rest = '"' :: (body ++ ['\\']) ∧
              Line.ofChars n (text ++ "\\\"").toList =
                .ok (tokens ++ [⟨.string, .ofList (decoded ++ ['\\']), e.position⟩]))) := by
  rw [Line.ofChars_of_line hline] at h
  obtain ⟨before, rest, offset, tokens, hcut, hbefore, hbad, hplace⟩ := Line.exists_unreadable h
  rw [Nat.zero_add] at hplace
  have hread : Line.ofChars n before = .ok tokens := by
    rw [Line.ofChars_of_line, hbefore.readFrom_eq_ok]
    exact fun hmem => hline (by rw [hcut]; exact List.mem_append_left rest hmem)
  refine ⟨before, rest, offset, tokens, hcut, hread, hbad, hplace, ?_, ?_⟩
  · intro hcause more
    rw [String.toList_append, Line.ofChars_append hline, hcut, List.append_assoc,
      Line.readFrom_of_unreadable hbefore (hbad.append hcause _), Nat.zero_add, ← hplace]
  · intro hcause
    rw [hcause] at hbad
    cases hbad with
    | @unclosed body decoded cut decodes =>
      refine ⟨body, decoded, decodes, Or.inl ⟨cut, ?_⟩⟩
      have hclosed := Line.readFrom_string hbefore decodes
      rw [String.toList_append, Line.ofChars_append hline, hcut, cut, hplace]
      simpa using hclosed
    | @dangling body decoded cut decodes =>
      refine ⟨body, decoded, decodes, Or.inr ⟨cut, ?_⟩⟩
      have hpair : Decodes ['\\', '\\'] ['\\'] := .escape (by decide) .nil
      have hclosed := Line.readFrom_string hbefore (decodes.append hpair)
      rw [String.toList_append, Line.ofChars_append hline, hcut, cut, hplace]
      simpa using hclosed

def misspelled : String :=
  "jeq\"a;\\q"

theorem misspelled_stays_unreadable :
    '\n' ∉ misspelled.toList ∧
      Line.ofChars 4 misspelled.toList = .error ⟨⟨4, 7⟩, .invalidEscape 'q'⟩ ∧
      ∀ more : String,
        Line.ofChars 4 (misspelled ++ more).toList = .error ⟨⟨4, 7⟩, .invalidEscape 'q'⟩ := by
  have hline : '\n' ∉ misspelled.toList := by decide
  have hread : Line.ofChars 4 misspelled.toList = .error ⟨⟨4, 7⟩, .invalidEscape 'q'⟩ := by
    decide +kernel
  obtain ⟨-, -, -, -, -, -, -, -, hmore, -⟩ := reading_errors_are_exact hline hread
  exact ⟨hline, hread, hmore (by decide)⟩

end Stackline
