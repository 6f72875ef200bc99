import Stackline.Input
import Stackline.Proofs.Lines
import Mathlib.Data.List.Basic
import Mathlib.Data.List.TakeDrop

/-! Reading lines from bytes. Each call takes the bytes up to and with the next newline, whether they
are a text or not, so that no byte is lost or read twice; and of a text the lines are those that it
is cut into as a program. -/
namespace Stackline

def Input.readLines {ι : Type} [Input ι] : Nat → ι → List (Except ReadError String) × ι
  | 0, input => ([], input)
  | n + 1, input =>
    match Input.readLine input with
    | (line, input) =>
      match readLines n input with
      | (lines, input) => (line :: lines, input)

def utf8 (text : String) : List UInt8 :=
  text.toUTF8.data.toList

namespace ByteSource

def extend (front : List UInt8) : List (List UInt8) → List (List UInt8)
  | [] => [front]
  | s :: ss => (front ++ s) :: ss

def segments : List UInt8 → List (List UInt8)
  | [] => []
  | b :: bytes => if b = 10 then [b] :: segments bytes else extend [b] (segments bytes)

def stripped (segment : List UInt8) : List UInt8 :=
  if segment.getLast? = some 10 then
    if segment.dropLast.getLast? = some 13 then segment.dropLast.dropLast else segment.dropLast
  else segment

/-- What may be answered for a segment: the text that it is, without its ending, or else that it is
no text. -/
inductive Answers : List UInt8 → Except ReadError String → Prop
  | line {text line : String} (ending : utf8 line = stripped (utf8 text)) :
      Answers (utf8 text) (.ok line)
  | garbled {segment : List UInt8} (invalid : ∀ text, utf8 text ≠ segment) :
      Answers segment (.error .invalidUtf8)

section Segments

variable {b : UInt8} {bytes : List UInt8}

theorem extend_extend (front back : List UInt8) (ss : List (List UInt8)) :
    extend front (extend back ss) = extend (front ++ back) ss := by
  cases ss <;> simp [extend]

theorem segments_newline (bytes : List UInt8) :
    segments (10 :: bytes) = [10] :: segments bytes := by
  rw [segments, if_pos rfl]

theorem segments_cons (hb : b ≠ 10) : segments (b :: bytes) = extend [b] (segments bytes) := by
  rw [segments, if_neg hb]

theorem cut_newline (bytes : List UInt8) : cut (10 :: bytes) = ([10], bytes) := by
  simp [cut, List.span_eq_takeWhile_dropWhile]

theorem cut_cons (hb : b ≠ 10) : cut (b :: bytes) = (b :: (cut bytes).1, (cut bytes).2) := by
  simp [cut, List.span_eq_takeWhile_dropWhile, hb]

theorem segments_eq_cut (h : bytes ≠ []) :
    segments bytes = (cut bytes).1 :: segments (cut bytes).2 := by
  induction bytes with
  | nil => exact absurd rfl h
  | cons b bytes ih =>
    by_cases hb : b = 10
    · rw [hb, segments_newline, cut_newline]
    · rw [segments_cons hb, cut_cons hb]
      cases bytes with
      | nil => rfl
      | cons c bytes =>
        rw [ih (by simp)]
        rfl

theorem flatten_segments (bytes : List UInt8) : (segments bytes).flatten = bytes := by
  induction bytes with
  | nil => rfl
  | cons b bytes ih =>
    by_cases hb : b = 10
    · rw [hb, segments_newline, List.flatten_cons, ih]
      rfl
    · rw [segments_cons hb]
      cases hss : segments bytes <;> simp_all [extend]

theorem segments_append {front : List UInt8} (hfront : 10 ∉ front) (hne : front ≠ []) :
    segments (front ++ bytes) = extend front (segments bytes) := by
  induction front with
  | nil => exact absurd rfl hne
  | cons b front ih =>
    simp only [List.mem_cons, not_or] at hfront
    rw [List.cons_append, segments_cons (Ne.symm hfront.1)]
    cases front with
    | nil => rfl
    | cons c front => rw [ih hfront.2 (by simp), extend_extend, List.singleton_append]

end Segments

end ByteSource

section Encoding

theorem utf8EncodeChar_of_lt {c : Char} (hc : c.toNat < 128) :
    String.utf8EncodeChar c = [UInt8.ofNat c.toNat] := by
  delta String.utf8EncodeChar
  exact if_pos (Nat.le_of_lt_succ hc)

theorem le_of_mem_utf8EncodeChar {c : Char} (hc : 128 ≤ c.toNat) {b : UInt8}
    (h : b ∈ String.utf8EncodeChar c) : 128 ≤ b.toNat := by
  have hone : ¬c.val.toNat ≤ 127 := Nat.not_le.2 hc
  have hhigh {k : Nat} (hlow : 128 ≤ k) (hlt : k < 256) : 128 ≤ (UInt8.ofNat k).toNat := by
    rw [UInt8.toNat_ofNat']
    omega
  delta String.utf8EncodeChar at h
  simp only [hone, if_false] at h
  split_ifs at h with htwo hthree
  · simp only [List.mem_cons, List.not_mem_nil, or_false] at h
    obtain rfl | rfl := h <;> exact hhigh (by omega) (by omega)
  · simp only [List.mem_cons, List.not_mem_nil, or_false] at h
    obtain rfl | rfl | rfl := h <;> exact hhigh (by omega) (by omega)
  · simp only [List.mem_cons, List.not_mem_nil, or_false] at h
    obtain rfl | rfl | rfl | rfl := h <;> exact hhigh (by omega) (by omega)

/-- A byte below 128 stands for one character alone. -/
theorem mem_utf8EncodeChar {c d : Char} (hd : d.toNat < 128) :
    UInt8.ofNat d.toNat ∈ String.utf8EncodeChar c ↔ c = d := by
  constructor
  · intro h
    by_cases hc : c.toNat < 128
    · rw [utf8EncodeChar_of_lt hc, List.mem_singleton] at h
      have hnat := congrArg UInt8.toNat h
      rw [UInt8.toNat_ofNat', UInt8.toNat_ofNat'] at hnat
      exact Char.toNat_inj.1 (by omega)
    · have hle := le_of_mem_utf8EncodeChar (Nat.not_lt.1 hc) h
      rw [UInt8.toNat_ofNat'] at hle
      omega
  · intro h
    rw [h, utf8EncodeChar_of_lt hd]
    exact List.mem_singleton_self _

theorem utf8_ofList (cs : List Char) :
    utf8 (String.ofList cs) = cs.flatMap String.utf8EncodeChar := by
  rw [utf8, String.toUTF8_eq_toByteArray, String.toByteArray_ofList]
  simp [List.utf8Encode]

theorem utf8_eq (text : String) : utf8 text = text.toList.flatMap String.utf8EncodeChar := by
  rw [← utf8_ofList, String.ofList_toList]

theorem getLast?_flatMap (cs : List Char) (c d : Char) (hd : d.toNat < 128) :
    ((cs ++ [c]).flatMap String.utf8EncodeChar).getLast? = some (UInt8.ofNat d.toNat) ↔ c = d := by
  simp only [List.flatMap_append, List.flatMap_singleton, List.getLast?_append,
    Option.or_eq_some_iff, List.getLast?_eq_none_iff, String.utf8EncodeChar_ne_nil, false_and,
    or_false]
  constructor
  · intro h
    exact (mem_utf8EncodeChar hd).1 (List.mem_of_getLast? h)
  · intro h
    rw [h, utf8EncodeChar_of_lt hd]
    rfl

theorem fromUTF8?_eq_some {bytes : List UInt8} {text : String} :
    String.fromUTF8? ⟨bytes.toArray⟩ = some text ↔ utf8 text = bytes := by
  change (if h : (ByteArray.mk bytes.toArray).IsValidUTF8 then some (String.fromUTF8 _ h)
    else none) = some text ↔ _
  constructor
  · intro h
    split at h
    · cases h
      rfl
    · cases h
  · intro h
    subst h
    have hvalid : (ByteArray.mk (utf8 text).toArray).IsValidUTF8 := text.isValidUTF8
    rw [dif_pos hvalid]
    rfl

theorem segments_flatMap (cs : List Char) :
    ByteSource.segments (cs.flatMap String.utf8EncodeChar) =
      (Text.segments cs).map (·.flatMap String.utf8EncodeChar) := by
  induction cs with
  | nil => rfl
  | cons c cs ih =>
    rw [List.flatMap_cons, Text.segments_cons]
    by_cases hc : c = '\n'
    · subst hc
      rw [Text.attach_newline, List.map_cons, ← ih]
      exact ByteSource.segments_newline _
    · have hbytes : 10 ∉ String.utf8EncodeChar c :=
        fun h => hc ((mem_utf8EncodeChar (d := '\n') (by decide)).1 h)
      rw [ByteSource.segments_append hbytes String.utf8EncodeChar_ne_nil, ih]
      cases Text.segments cs <;> simp [Text.attach, ByteSource.extend, hc]

theorem stripped_newline (bytes : List UInt8) :
    ByteSource.stripped (bytes ++ [10]) =
      if bytes.getLast? = some 13 then bytes.dropLast else bytes := by
  simp [ByteSource.stripped]

theorem stripped_flatMap (cs : List Char) :
    ByteSource.stripped (cs.flatMap String.utf8EncodeChar) =
      (ByteSource.popEnding cs).flatMap String.utf8EncodeChar := by
  have hnewline : (['\n'] : List Char).flatMap String.utf8EncodeChar = [10] := rfl
  have hreturn : (['\r'] : List Char).flatMap String.utf8EncodeChar = [13] := rfl
  obtain rfl | ⟨front, c, rfl⟩ := List.eq_nil_or_concat' cs
  · rfl
  by_cases hc : c = '\n'
  · subst hc
    rw [List.flatMap_append, hnewline, stripped_newline]
    obtain rfl | ⟨before, d, rfl⟩ := List.eq_nil_or_concat' front
    · rfl
    have hlast : ((before ++ [d]).flatMap String.utf8EncodeChar).getLast? = some 13 ↔ d = '\r' :=
      getLast?_flatMap before d '\r' (by decide)
    by_cases hd : d = '\r'
    · rw [if_pos (hlast.2 hd), hd, List.flatMap_append, hreturn, List.dropLast_concat]
      simp [ByteSource.popEnding]
    · rw [if_neg (hlast.not.2 hd)]
      simp [ByteSource.popEnding, hd]
  · have hlast : ((front ++ [c]).flatMap String.utf8EncodeChar).getLast? = some 10 ↔ c = '\n' :=
      getLast?_flatMap front c '\n' (by decide)
    rw [ByteSource.stripped, if_neg (hlast.not.2 hc)]
    simp [ByteSource.popEnding, hc]

end Encoding

namespace ByteSource

/-- What is taken off a line that is read is what is taken off a line of a program. -/
theorem popEnding_eq_chomp (cs : List Char) : popEnding cs = Text.chomp cs := by
  obtain rfl | ⟨front, c, rfl⟩ := List.eq_nil_or_concat' cs
  · rfl
  by_cases hc : c = '\n'
  · subst hc
    obtain rfl | ⟨before, d, rfl⟩ := List.eq_nil_or_concat' front
    · rfl
    by_cases hd : d = '\r' <;> simp [popEnding, Text.chomp, hd]
  · simp [popEnding, Text.chomp, hc]

def answer (segment : List UInt8) : Except ReadError String :=
  match String.fromUTF8? ⟨segment.toArray⟩ with
  | none => .error .invalidUtf8
  | some text => .ok (String.ofList (popEnding text.toList))

theorem answer_utf8 (text : String) :
    answer (utf8 text) = .ok (String.ofList (popEnding text.toList)) := by
  rw [answer, fromUTF8?_eq_some.2 rfl]

theorem answers_answer (segment : List UInt8) : Answers segment (answer segment) := by
  cases htext : String.fromUTF8? ⟨segment.toArray⟩ with
  | none =>
    rw [answer, htext]
    refine .garbled fun text h => ?_
    rw [fromUTF8?_eq_some.2 h] at htext
    cases htext
  | some text =>
    have hutf8 := fromUTF8?_eq_some.1 htext
    subst hutf8
    rw [answer_utf8]
    refine .line ?_
    rw [utf8_ofList, utf8_eq, stripped_flatMap]

theorem readLine_eq (s : ByteSource) :
    s.readLine = (answer (cut s.rest).1, ⟨(cut s.rest).2, s.consumed + (cut s.rest).1.length⟩) := by
  cases hcut : cut s.rest with
  | mk line rest =>
    simp only [readLine, answer, hcut]
    cases String.fromUTF8? ⟨line.toArray⟩ <;> rfl

theorem readLine_at_end {s : ByteSource} (h : s.rest = []) : s.readLine = (.ok "", s) := by
  have hempty : answer [] = .ok "" := answer_utf8 ""
  obtain ⟨rest, consumed⟩ := s
  subst h
  rw [readLine_eq]
  exact Prod.ext hempty rfl

/-- Each call answers for one segment and takes it off, up to the last; then nothing changes. -/
theorem readLines_eq (n : Nat) (s : ByteSource) :
    Input.readLines n s =
      (((segments s.rest).take n).map answer ++
          List.replicate (n - (segments s.rest).length) (.ok ""),
        ⟨((segments s.rest).drop n).flatten,
          s.consumed + ((segments s.rest).take n).flatten.length⟩) := by
  induction n generalizing s with
  | zero => simp [Input.readLines, flatten_segments]
  | succ n ih =>
    have hcall : Input.readLine s = s.readLine := rfl
    simp only [Input.readLines, hcall]
    by_cases hrest : s.rest = []
    · simp only [readLine_at_end hrest, ih s, hrest]
      simp [segments, List.replicate_succ]
    · simp only [readLine_eq, ih, segments_eq_cut hrest]
      simp [Nat.add_assoc]

theorem map_answer_utf8 (text : String) :
    (segments (utf8 text)).map answer =
      (Text.lines text.toList).map fun cs => .ok (String.ofList cs) := by
  have hanswer (cs : List Char) : answer (cs.flatMap String.utf8EncodeChar) =
      .ok (String.ofList (Text.chomp cs)) := by
    rw [← utf8_ofList, answer_utf8, String.toList_ofList, popEnding_eq_chomp]
  rw [utf8_eq, segments_flatMap, Text.lines, List.map_map, List.map_map]
  exact List.map_congr_left fun cs _ => hanswer cs

end ByteSource

/-- After `n` calls exactly the first `n` segments of the bytes are consumed, or all of them. Each call
answered for its segment, whether that was a text or not, and those after the last segment found an
empty line. If the bytes are those of a text, its lines were read, as they are cut for a program. -/
theorem reading_lines_loses_nothing (s : ByteSource) (n : Nat) :
    ∃ answers,
      Input.readLines n s =
        (answers,
          ⟨((ByteSource.segments s.rest).drop n).flatten,
            s.consumed + ((ByteSource.segments s.rest).take n).flatten.length⟩) ∧
      answers.length = n ∧
      (∀ i segment, i < n → (ByteSource.segments s.rest)[i]? = some segment →
        ∃ answer, answers[i]? = some answer ∧ ByteSource.Answers segment answer) ∧
      (∀ i < n, (ByteSource.segments s.rest)[i]? = none → answers[i]? = some (.ok "")) ∧
      ∀ text, s.rest = utf8 text →
        answers =
          ((Text.lines text.toList).take n).map (fun cs => .ok (String.ofList cs)) ++
            List.replicate (n - (Text.lines text.toList).length) (.ok "") := by
  refine ⟨_, s.readLines_eq n, ?_, ?_, ?_, ?_⟩
  · simp only [List.length_append, List.length_map, List.length_take, List.length_replicate]
    omega
  · intro i segment hi hsegment
    have hlt := (List.getElem?_eq_some_iff.1 hsegment).1
    refine ⟨_, ?_, ByteSource.answers_answer segment⟩
    rw [List.getElem?_append_left (by rw [List.length_map, List.length_take]; omega),
      List.getElem?_map, List.getElem?_take_of_lt hi, hsegment]
    rfl
  · intro i hi hnone
    have hle := List.getElem?_eq_none_iff.1 hnone
    rw [List.getElem?_append_right (by rw [List.length_map, List.length_take]; omega),
      List.getElem?_replicate, List.length_map, List.length_take]
    exact if_pos (by omega)
  · intro text htext
    have hlines := ByteSource.map_answer_utf8 text
    have hcount := congrArg List.length hlines
    rw [List.length_map, List.length_map] at hcount
    rw [htext, List.map_take, hlines, hcount, List.map_take]

def mixedBytes : List UInt8 :=
  [97, 13, 10, 255, 10, 98, 13]

theorem reading_loses_nothing_of_mixedBytes :
    ByteSource.segments mixedBytes = [[97, 13, 10], [255, 10], [98, 13]] ∧
      (∃ answers answer, Input.readLines 4 (⟨mixedBytes, 0⟩ : ByteSource) = (answers, ⟨[], 7⟩) ∧
        answers[1]? = some answer ∧ ByteSource.Answers [255, 10] answer ∧
        answers[3]? = some (.ok "")) ∧
      Input.readLines 3 (⟨utf8 "é\r\nb", 0⟩ : ByteSource) =
        ([.ok "é", .ok "b", .ok ""], ⟨[], 5⟩) := by
  have hsegments : ByteSource.segments mixedBytes = [[97, 13, 10], [255, 10], [98, 13]] := by decide
  obtain ⟨answers, hread, -, hanswered, hend, -⟩ := reading_lines_loses_nothing ⟨mixedBytes, 0⟩ 4
  obtain ⟨answer, hanswer, hgarbled⟩ := hanswered 1 [255, 10] (by decide) (by rw [hsegments]; rfl)
  obtain ⟨lines, hlines, -, -, -, htext⟩ := reading_lines_loses_nothing ⟨utf8 "é\r\nb", 0⟩ 3
  refine ⟨hsegments, ⟨answers, answer, ?_, hanswer, hgarbled, ?_⟩, ?_⟩
  · rw [hread, hsegments]
    rfl
  · exact hend 3 (by decide) (by rw [hsegments]; rfl)
  · rw [hlines, htext "é\r\nb" rfl]
    decide +kernel

end Stackline
