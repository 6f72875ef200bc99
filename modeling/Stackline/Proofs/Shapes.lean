import Stackline.Shape
import Mathlib.Tactic.Common

/-! What a check tells about the arguments. A token that stands for the end of a line may be among
them, so a check that passes does not bound their number; but it finds one for every slot. -/
namespace Stackline

theorem Slot.kind_mem_of_check {s : Slot} {t : Token} (h : s.check t = .ok ()) :
    t.kind ∈ s.kinds := by
  simp only [check] at h
  split at h
  · rename_i hk
    simpa using hk
  · cases h

namespace Shape

theorem length_le_of_checkSlots {eol : Token} {slots : List Slot} {args : List Token}
    (hs : ∀ s ∈ slots, eol.kind ∉ s.kinds) (h : checkSlots eol slots args = .ok ()) :
    slots.length ≤ args.length := by
  induction slots generalizing args with
  | nil => simp
  | cons s slots ih =>
    simp only [checkSlots] at h
    split at h
    · cases h
    · rename_i hc
      cases args with
      | nil => exact absurd (Slot.kind_mem_of_check hc) (hs s (by simp))
      | cons t args =>
        have hl := ih (fun s' h' => hs s' (List.mem_cons_of_mem s h')) h
        simpa using hl

theorem checkSlots_append (eol : Token) (front back : List Slot) (args : List Token) :
    checkSlots eol (front ++ back) args =
      match checkSlots eol front args with
      | .error e => .error e
      | .ok () => checkSlots eol back (args.drop front.length) := by
  induction front generalizing args with
  | nil => simp [checkSlots]
  | cons s front ih =>
    simp only [List.cons_append, checkSlots]
    cases s.check (args.headD eol) with
    | error e => rfl
    | ok => simpa using ih args.tail

theorem checkSlots_of_append {eol : Token} {front back : List Slot} {args : List Token}
    (h : checkSlots eol (front ++ back) args = .ok ()) : checkSlots eol front args = .ok () := by
  rw [checkSlots_append] at h
  split at h
  · cases h
  · assumption

theorem required_eq_append (s : Shape) : ∃ back, s.required = s.slots ++ back := by
  simp only [required]
  split
  · exact ⟨[], by simp⟩
  · split
    · exact ⟨[], by simp⟩
    · exact ⟨[.lineEnd], rfl⟩

theorem checkSlots_of_check {s : Shape} {head : Token} {args : List Token}
    (h : s.check head args = .ok ()) :
    checkSlots (.endOfLine (args.getLastD head).position) s.slots args = .ok () := by
  obtain ⟨back, hb⟩ := s.required_eq_append
  simp only [check, hb] at h
  split at h
  · cases h
  all_goals
    rename_i hc _
    exact checkSlots_of_append hc

/-- A check that passes has seen an argument for every slot that the end of a line does not fit. -/
theorem length_slots_le_of_check {s : Shape} {head : Token} {args : List Token}
    (hs : ∀ slot ∈ s.slots, Kind.endOfLine ∉ slot.kinds) (h : s.check head args = .ok ()) :
    s.slots.length ≤ args.length :=
  length_le_of_checkSlots hs (checkSlots_of_check h)

theorem length_le_of_check_ofKinds {kinds : List (List Kind)} {head : Token} {args : List Token}
    (hk : ∀ ks ∈ kinds, Kind.endOfLine ∉ ks) (h : (ofKinds kinds).check head args = .ok ()) :
    kinds.length ≤ args.length := by
  have hl := length_slots_le_of_check (s := ofKinds kinds) (by simpa [ofKinds] using hk) h
  simpa [ofKinds] using hl

theorem exists_arg_of_check_ofKinds {ks : List Kind} {kinds : List (List Kind)} {head : Token}
    {args : List Token} (hk : ∀ ks' ∈ ks :: kinds, Kind.endOfLine ∉ ks')
    (h : (ofKinds (ks :: kinds)).check head args = .ok ()) : ∃ arg rest, args = arg :: rest := by
  have hl := length_le_of_check_ofKinds hk h
  exact List.exists_cons_of_length_pos (Nat.zero_lt_of_lt hl)

theorem kind_mem_of_check_ofKinds {ks : List Kind} {kinds : List (List Kind)} {head arg : Token}
    {rest : List Token} (h : (ofKinds (ks :: kinds)).check head (arg :: rest) = .ok ()) :
    arg.kind ∈ ks := by
  have hc := checkSlots_of_check h
  simp only [ofKinds, List.map_cons, checkSlots, List.headD_cons] at hc
  split at hc
  · cases hc
  · rename_i hslot
    exact Slot.kind_mem_of_check hslot

variable {e : Error}

theorem exists_failing_slot {eol : Token} {slots : List Slot} {args : List Token}
    (h : checkSlots eol slots args = .error e) :
    ∃ s : Slot, ∃ t ∈ eol :: args, s.check t = .error e := by
  induction slots generalizing args with
  | nil => cases h
  | cons s slots ih =>
    simp only [checkSlots] at h
    split at h
    · rename_i hs
      cases h
      refine ⟨s, args.headD eol, ?_, hs⟩
      cases args <;> simp
    · obtain ⟨s', t, ht, he⟩ := ih h
      refine ⟨s', t, ?_, he⟩
      cases List.mem_cons.1 ht with
      | inl hend =>
        rw [hend]
        exact List.mem_cons_self
      | inr htail => exact List.mem_cons_of_mem eol (List.mem_of_mem_tail htail)

/-- What a failed check can have failed at: a slot, or the kinds of the arguments behind them. -/
theorem check_error_cases {s : Shape} {head : Token} {args : List Token}
    (h : s.check head args = .error e) :
    (∃ slot : Slot, ∃ t ∈ Token.endOfLine (args.getLastD head).position :: args,
      slot.check t = .error e) ∨
    ∃ kinds, ∃ t ∈ args, e = ⟨t.position, .unexpectedKind kinds t.kind⟩ := by
  simp only [check] at h
  split at h
  · rename_i hs
    cases h
    exact Or.inl (exists_failing_slot hs)
  · cases h
  · rename_i kinds _ _
    simp only [checkTrailing] at h
    split at h
    · cases h
    · rename_i t ht
      cases h
      exact Or.inr ⟨kinds, t, List.mem_of_mem_drop (List.mem_of_find?_eq_some ht), rfl⟩

end Shape
end Stackline
