import Stackline.Token.Lexer
import Mathlib.Data.List.TakeWhile
import Mathlib.Tactic.Common

/-! Texts, line by line: where a text can be cut into lines, and what reading all the lines says
about each of them. -/
namespace Stackline

namespace Text

theorem attach_append (c : Char) {ss : List (List Char)} (h : ss ≠ []) (rest : List (List Char)) :
    attach c (ss ++ rest) = attach c ss ++ rest := by
  cases ss with
  | nil => exact absurd rfl h
  | cons s ss => by_cases hc : c = '\n' <;> simp [attach, hc]

theorem segments_ne_nil {cs : List Char} (h : cs ≠ []) : segments cs ≠ [] := by
  intro hnil
  apply h
  rw [← flatten_segments cs, hnil]
  rfl

theorem segments_append_newline (front rest : List Char) :
    segments (front ++ '\n' :: rest) = segments (front ++ ['\n']) ++ segments rest := by
  induction front with
  | nil => cases h : segments rest <;> simp [attach, h]
  | cons c front ih =>
    simp only [List.cons_append, segments_cons, ih]
    exact attach_append c (segments_ne_nil (by simp)) _

theorem lines_append {front rest : List Char} (h : front = [] ∨ ∃ cs, front = cs ++ ['\n']) :
    lines (front ++ rest) = lines front ++ lines rest := by
  cases h with
  | inl hnil =>
    subst hnil
    rfl
  | inr hline =>
    obtain ⟨cs, rfl⟩ := hline
    simp only [lines, List.append_assoc, List.singleton_append, segments_append_newline cs rest,
      List.map_append]

theorem lines_of_line {cs : List Char} (h : '\n' ∉ cs) :
    lines (cs ++ ['\n']) = [chomp (cs ++ ['\n'])] := by
  have hsegments : segments (cs ++ ['\n']) = [cs ++ ['\n']] := by
    induction cs with
    | nil => rfl
    | cons c cs ih =>
      simp only [List.mem_cons, not_or] at h
      rw [List.cons_append, segments_cons, ih h.2]
      simp [attach, Ne.symm h.1]
  rw [lines, hsegments]
  rfl

theorem chomp_line (cs : List Char) :
    chomp (cs ++ ['\n']) = cs ∨ '\r' ∈ cs ∧ chomp (cs ++ ['\n']) = cs.dropLast := by
  simp only [chomp, List.reverse_append, List.reverse_singleton, List.singleton_append]
  cases hcs : cs.reverse with
  | nil =>
    rw [List.reverse_eq_nil_iff] at hcs
    subst hcs
    exact Or.inl rfl
  | cons c rest =>
    have hback : cs = rest.reverse ++ [c] := by
      rw [← List.reverse_cons, ← hcs, List.reverse_reverse]
    subst hback
    by_cases hc : c = '\r'
    · subst hc
      exact Or.inr (by simp)
    · exact Or.inl (by simp [hc])

theorem chomp_cons {c : Char} (hnewline : c ≠ '\n') (hreturn : c ≠ '\r') (s : List Char) :
    chomp (c :: s) = c :: chomp s := by
  simp only [chomp, List.reverse_cons]
  cases s.reverse with
  | nil => simp [hnewline]
  | cons d rest =>
    by_cases hd : d = '\n'
    · subst hd
      cases rest with
      | nil => simp [hreturn]
      | cons d' rest => by_cases hd' : d' = '\r' <;> simp [hd']
    · simp [hd]

theorem attach_newline (ss : List (List Char)) : attach '\n' ss = ['\n'] :: ss := by
  cases ss <;> rfl

theorem lines_newline (cs : List Char) : lines ('\n' :: cs) = [] :: lines cs := by
  simp only [lines, segments_cons, attach_newline, List.map_cons]
  rfl

theorem lines_return_newline (cs : List Char) : lines ('\r' :: '\n' :: cs) = [] :: lines cs := by
  simp only [lines, segments_cons, attach_newline]
  rfl

theorem lines_cons {c : Char} (hnewline : c ≠ '\n') (hreturn : c ≠ '\r') (cs : List Char) :
    lines (c :: cs) = attach c (lines cs) := by
  simp only [lines, segments_cons]
  cases segments cs with
  | nil =>
    simp only [attach, List.map_cons, List.map_nil, chomp_cons hnewline hreturn]
    rfl
  | cons s ss => simp [attach, hnewline, chomp_cons hnewline hreturn]

theorem chomp_newline {cs : List Char} (h : '\r' ∉ cs) : chomp (cs ++ ['\n']) = cs := by
  cases chomp_line cs with
  | inl hsame => exact hsame
  | inr hreturn => exact absurd hreturn.1 h

end Text

namespace Line

/-- What follows on the same line counts up to where that ends. -/
theorem ofChars_append {cs : List Char} (h : '\n' ∉ cs) (n : Nat) (more : List Char) :
    ofChars n (cs ++ more) = readFrom n 0 (cs ++ more.takeWhile (· != '\n')) := by
  rw [ofChars, List.takeWhile_append_of_pos]
  intro c hc
  rw [bne_iff_ne]
  intro heq
  exact h (heq ▸ hc)

theorem ofChars_of_line {cs : List Char} (h : '\n' ∉ cs) (n : Nat) :
    ofChars n cs = readFrom n 0 cs := by
  simpa using ofChars_append h n []

variable {index : Nat} {lines : List (List Char)} {read : List Line}

theorem readAll_cons_ok {cs : List Char} :
    readAll index (cs :: lines) = .ok read ↔
      ∃ tokens rest, ofChars index cs = .ok tokens ∧ readAll (index + 1) lines = .ok rest ∧
        read = tokens :: rest := by
  simp only [readAll]
  cases ofChars index cs with
  | error e => simp
  | ok tokens => cases readAll (index + 1) lines <;> simp [Except.map, eq_comm]

theorem length_readAll (h : readAll index lines = .ok read) : read.length = lines.length := by
  induction lines generalizing index read with
  | nil =>
    cases h
    rfl
  | cons line lines ih =>
    obtain ⟨tokens, rest, -, hr, rfl⟩ := readAll_cons_ok.1 h
    simp [ih hr]

theorem ofChars_of_readAll (h : readAll index lines = .ok read) {i : Nat} {tokens : Line}
    (hi : read[i]? = some tokens) :
    ∃ cs, lines[i]? = some cs ∧ ofChars (index + i) cs = .ok tokens := by
  induction lines generalizing index read i with
  | nil =>
    cases h
    simp at hi
  | cons line lines ih =>
    obtain ⟨first, rest, hline, hr, rfl⟩ := readAll_cons_ok.1 h
    cases i with
    | zero =>
      cases hi
      exact ⟨line, rfl, hline⟩
    | succ i =>
      obtain ⟨cs, hcs, htokens⟩ := ih hr hi
      rw [show index + 1 + i = index + (i + 1) by omega] at htokens
      exact ⟨cs, hcs, htokens⟩

theorem readAll_append (index : Nat) (front back : List (List Char)) :
    readAll index (front ++ back) =
      match readAll index front with
      | .error e => .error e
      | .ok read => (readAll (index + front.length) back).map (read ++ ·) := by
  induction front generalizing index with
  | nil => cases hb : readAll index back <;> simp [readAll, Except.map, hb]
  | cons line front ih =>
    have hindex : index + (line :: front).length = index + 1 + front.length := by
      simp only [List.length_cons]
      omega
    simp only [List.cons_append, readAll, ih, hindex]
    cases ofChars index line with
    | error e => rfl
    | ok tokens =>
      cases readAll (index + 1) front with
      | error e => rfl
      | ok read => cases readAll (index + 1 + front.length) back <;> rfl

theorem readAll_eq_error {e : Error} :
    readAll index lines = .error e ↔
      ∃ front cs back above, lines = front ++ cs :: back ∧ readAll index front = .ok above ∧
        ofChars (index + front.length) cs = .error e := by
  constructor
  · intro h
    induction lines generalizing index with
    | nil => cases h
    | cons line lines ih =>
      cases hl : ofChars index line with
      | error e' =>
        simp only [readAll, hl] at h
        cases h
        exact ⟨[], line, lines, [], rfl, rfl, hl⟩
      | ok tokens =>
        cases hr : readAll (index + 1) lines with
        | ok rest =>
          simp only [readAll, hl, hr] at h
          cases h
        | error e' =>
          simp only [readAll, hl, hr] at h
          cases h
          obtain ⟨front, cs, back, above, rfl, hfront, he⟩ := ih hr
          refine ⟨line :: front, cs, back, tokens :: above, rfl, ?_, ?_⟩
          · exact readAll_cons_ok.2 ⟨tokens, above, hl, hfront, rfl⟩
          · rwa [List.length_cons, Nat.add_comm _ 1, ← Nat.add_assoc]
  · intro h
    obtain ⟨front, cs, back, above, rfl, hfront, he⟩ := h
    simp only [readAll_append, hfront, readAll, he]
    rfl

end Line
end Stackline
