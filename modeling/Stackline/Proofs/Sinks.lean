import Stackline.Proofs.Printing

/-! Printing into bytes. The bytes are those of the values that the same program prints into a list,
one value after the other; and a sink with too little room cuts them off at its last byte, which
ends the run at the line that prints the value cut there. -/
namespace Stackline

def bytesOf : List Value → ByteArray
  | [] => .empty
  | v :: vs => v.render.toUTF8 ++ bytesOf vs

theorem bytesOf_append (us vs : List Value) : bytesOf (us ++ vs) = bytesOf us ++ bytesOf vs := by
  induction us with
  | nil => exact ByteArray.empty_append.symm
  | cons u us ih => rw [List.cons_append, bytesOf, bytesOf, ih, ByteArray.append_assoc]

/-- Where room runs out there is a value that is the first not to fit. -/
theorem exists_first_beyond {vs : List Value} {n : Nat} (h : n < (bytesOf vs).size) :
    ∃ front v back, vs = front ++ v :: back ∧ (bytesOf front).size ≤ n ∧
      n < (bytesOf front).size + v.render.toUTF8.size := by
  induction vs generalizing n with
  | nil => exact absurd h (Nat.not_lt_zero n)
  | cons v vs ih =>
    by_cases hv : n < v.render.toUTF8.size
    · exact ⟨[], v, vs, rfl, Nat.zero_le n, by simpa [bytesOf] using hv⟩
    · rw [bytesOf, ByteArray.size_append] at h
      obtain ⟨front, w, back, rfl, hle, hlt⟩ := ih (n := n - v.render.toUTF8.size) (by omega)
      refine ⟨v :: front, w, back, rfl, ?_, ?_⟩
      · rw [bytesOf, ByteArray.size_append]
        omega
      · rw [bytesOf, ByteArray.size_append]
        omega

theorem extract_bytesOf {front back : List Value} {v : Value} {n : Nat}
    (hle : (bytesOf front).size ≤ n) (hlt : n < (bytesOf front).size + v.render.toUTF8.size) :
    (bytesOf (front ++ v :: back)).extract 0 n =
      bytesOf front ++ v.render.toUTF8.extract 0 (n - (bytesOf front).size) := by
  have hfront : (bytesOf front).extract 0 n = bytesOf front := by
    rw [← Nat.max_eq_left hle, ByteArray.extract_zero_max_size]
  have hnone : n - (bytesOf front).size - v.render.toUTF8.size = 0 := by omega
  rw [bytesOf_append, ByteArray.extract_append, hfront, bytesOf, ByteArray.extract_append, hnone]
  simp

namespace ByteSink

variable {s : ByteSink} {v : Value} {vs : List Value}

def HasRoom (s : ByteSink) (count : Nat) : Prop :=
  ∀ room, s.room = some room → s.written.size + count ≤ room

theorem write_of_hasRoom {bytes : ByteArray} (h : s.HasRoom bytes.size) :
    s.write bytes = (.ok (), { s with written := s.written ++ bytes }) := by
  have hfit : s.fitting bytes.size = bytes.size := by
    simp only [fitting]
    cases hroom : s.room with
    | none => rfl
    | some room =>
      have hle := h room hroom
      simp only
      omega
  simp only [write, hfit, if_true]

theorem write_of_full {bytes : ByteArray} {room : Nat} (hroom : s.room = some room)
    (hlt : room < s.written.size + bytes.size) (hle : s.written.size ≤ room) :
    s.write bytes =
      (.error fullReason,
        { s with written := s.written ++ bytes.extract 0 (room - s.written.size) }) := by
  have hfit : s.fitting bytes.size = room - s.written.size := by
    simp only [fitting, hroom]
    omega
  have hne : room - s.written.size ≠ bytes.size := by omega
  simp only [write, hfit, hne, if_false]

theorem accept_of_hasRoom (hflush : s.flushError = none) (h : s.HasRoom v.render.toUTF8.size) :
    Output.accept s v = (.ok (), { s with written := s.written ++ v.render.toUTF8 }) := by
  simp only [Output.accept, accept, write_of_hasRoom h, flush, hflush]

theorem feed_of_hasRoom (hflush : s.flushError = none) (h : s.HasRoom (bytesOf vs).size) :
    Output.feed s vs = (.ok (), { s with written := s.written ++ bytesOf vs }) := by
  induction vs generalizing s with
  | nil => rw [bytesOf, ByteArray.append_empty, Output.feed]
  | cons v vs ih =>
    rw [bytesOf, ByteArray.size_append] at h
    have hfirst : s.HasRoom v.render.toUTF8.size := by
      intro room hroom
      have hle := h room hroom
      omega
    have hrest : HasRoom { s with written := s.written ++ v.render.toUTF8 } (bytesOf vs).size := by
      intro room hroom
      have hle := h room hroom
      simp only [ByteArray.size_append]
      omega
    refine Output.feed_cons_ok.2 ⟨_, accept_of_hasRoom hflush hfirst, ?_⟩
    rw [bytesOf, ← ByteArray.append_assoc]
    exact ih hflush hrest

theorem hasRoom_fresh {n count : Nat} : HasRoom { room := some n } count ↔ count ≤ n := by
  simp [HasRoom]

theorem feed_fresh {room : Option Nat} (h : HasRoom { room } (bytesOf vs).size) :
    Output.feed ({ room } : ByteSink) vs = (.ok (), { written := bytesOf vs, room }) := by
  have hfed := feed_of_hasRoom rfl h
  rwa [ByteArray.empty_append] at hfed

/-- The first value that does not fit is cut at the last byte that there is room for. -/
theorem accept_beyond {front back : List Value} {n : Nat} (hle : (bytesOf front).size ≤ n)
    (hlt : n < (bytesOf front).size + v.render.toUTF8.size) :
    Output.accept ({ written := bytesOf front, room := some n } : ByteSink) v =
      (.error fullReason,
        { written := (bytesOf (front ++ v :: back)).extract 0 n, room := some n }) := by
  have hwrite := write_of_full (s := { written := bytesOf front, room := some n }) rfl hlt hle
  rw [extract_bytesOf hle hlt]
  simp only [Output.accept, accept, hwrite]

end ByteSink

/-- Whatever a text prints when its values are collected, a byte sink gets their bytes and the run
ends alike; with room for `n` bytes only, this is so if they fit, and otherwise the sink keeps the
first `n` of them and the run ends at the line that prints the first value beyond. -/
theorem sinks_agree {text : String} {outcome : Outcome} {vs : List Value}
    (h : TextEnds text ({} : PrintedValues) outcome ⟨vs.toArray⟩) :
    TextEnds text ({} : ByteSink) outcome { written := bytesOf vs } ∧
    ∀ n,
      ((bytesOf vs).size ≤ n →
        TextEnds text ({ room := some n } : ByteSink) outcome
          { written := bytesOf vs, room := some n }) ∧
      (n < (bytesOf vs).size →
        ∃ k v p m head, vs[k]? = some v ∧ (bytesOf (vs.take k)).size ≤ n ∧
          n < (bytesOf (vs.take (k + 1))).size ∧ Program.ofText text = .ok p ∧
          Machine.Reaches p { output := ({} : PrintedValues) } m ∧
          m.output.values.toList = vs.take k ∧ m.Printing p head v ∧
          TextEnds text ({ room := some n } : ByteSink)
            (.failed ⟨head.position, .output "sink full"⟩)
            { written := (bytesOf vs).extract 0 n, room := some n }) := by
  have hfits (room : Option Nat) (hroom : ByteSink.HasRoom { room } (bytesOf vs).size) :
      TextEnds text ({ room } : ByteSink) outcome { written := bytesOf vs, room } :=
    h.fed (ByteSink.feed_fresh hroom)
  refine ⟨hfits none (by simp [ByteSink.HasRoom]), fun n => ⟨fun hle => ?_, fun hlt => ?_⟩⟩
  · exact hfits (some n) (ByteSink.hasRoom_fresh.2 hle)
  · obtain ⟨front, v, back, rfl, hle, hbeyond⟩ := exists_first_beyond hlt
    have hfed := ByteSink.feed_fresh (ByteSink.hasRoom_fresh.2 hle)
    obtain ⟨p, m, head, hp, hreach, hfront, hprint, hend⟩ :=
      h.refused hfed (ByteSink.accept_beyond hle hbeyond)
    have hnext : (front ++ v :: back).take (front.length + 1) = front ++ [v] :=
      List.take_length_add_append 1
    refine ⟨front.length, v, p, m, head, by simp, by simpa using hle, ?_, hp, hreach,
      by simpa using hfront, hprint, hend⟩
    rw [hnext, bytesOf_append, ByteArray.size_append, bytesOf, bytesOf, ByteArray.append_empty]
    exact hbeyond

def accented : String :=
  "push \"é\"\nprint\npush \"\"\nprint\npush 12\nprint\n"

theorem sinks_agree_on_accented :
    TextEnds accented ({} : PrintedValues) (.finished ⟨none, .empty, 6⟩)
        ⟨[.text "é", .text "", .int 12].toArray⟩ ∧
      TextEnds accented ({} : ByteSink) (.finished ⟨none, .empty, 6⟩)
        { written := bytesOf [.text "é", .text "", .int 12] } ∧
      3 < (bytesOf [.text "é", .text "", .int 12]).size ∧
      ∃ head : Token, head.literal = "print" ∧
        TextEnds accented ({ room := some 3 } : ByteSink)
          (.failed ⟨head.position, .output "sink full"⟩)
          { written := (bytesOf [.text "é", .text "", .int 12]).extract 0 3, room := some 3 } := by
  have hvalues : TextEnds accented ({} : PrintedValues) (.finished ⟨none, .empty, 6⟩)
      ⟨[.text "é", .text "", .int 12].toArray⟩ := ⟨by simp, 7, by decide +kernel⟩
  have hlarge : 3 < (bytesOf [.text "é", .text "", .int 12]).size := by decide +kernel
  obtain ⟨hunlimited, hlimited⟩ := sinks_agree hvalues
  obtain ⟨k, v, p, m, head, -, -, -, -, -, -, hprint, hend⟩ := (hlimited 3).2 hlarge
  exact ⟨hvalues, hunlimited, hlarge, head, hprint.word.2, hend⟩

end Stackline
