import Stackline.Proofs.Shapes

/-! Which arguments a shape accepts, and what a check says of others. The end of the line counts as
an argument that stands behind all others, and need not be asked for; of the places where something
is wrong, the leftmost is blamed. -/
namespace Stackline

/-- The argument at an index. Behind the last one comes the end of the line, placed where the last
token of the line is. -/
def padded (head : Token) (args : List Token) (i : Nat) : Token :=
  args[i]?.getD (.endOfLine (args.getLastD head).position)

theorem padded_of_getElem? {head t : Token} {args : List Token} {i : Nat} (h : args[i]? = some t) :
    padded head args i = t := by
  simp [padded, h]

namespace Slot

def Accepts (s : Slot) (t : Token) : Prop :=
  t.kind ∈ s.kinds ∧ (s.kinds = [.endOfLine] ∨ s.literals = [] ∨ t.literal ∈ s.literals)

inductive Refuses (s : Slot) (t : Token) : Cause → Prop
  | goesOn (hend : s.kinds = [.endOfLine]) (hk : t.kind ≠ .endOfLine) :
      Refuses s t (.expectedEndOfLine t.kind)
  | missing (hk : t.kind = .endOfLine) (hmem : .endOfLine ∉ s.kinds) :
      Refuses s t (.unexpectedEndOfLine s.kinds)
  | otherKind (hend : s.kinds ≠ [.endOfLine]) (hk : t.kind ≠ .endOfLine) (hmem : t.kind ∉ s.kinds) :
      Refuses s t (.unexpectedKind s.kinds t.kind)
  | otherLiteral (hend : s.kinds ≠ [.endOfLine]) (hmem : t.kind ∈ s.kinds)
      (hlisted : s.literals ≠ []) (hnot : t.literal ∉ s.literals) :
      Refuses s t (.unexpectedLiteral s.literals t.literal)

variable {s : Slot} {t : Token} {e : Error}

theorem isLineEnd_iff : s.isLineEnd = true ↔ s.kinds = [.endOfLine] := by
  simp [isLineEnd]

theorem acceptsLiteral_iff {literal : String} :
    s.acceptsLiteral literal = true ↔
      s.kinds = [.endOfLine] ∨ s.literals = [] ∨ literal ∈ s.literals := by
  simp [acceptsLiteral, isLineEnd_iff, or_assoc]

theorem check_eq_ok : s.check t = .ok () ↔ s.Accepts t := by
  simp only [check, Accepts, ← acceptsLiteral_iff]
  split_ifs with hk hl
  · simpa [hl] using hk
  · simp [hl]
  · simpa using fun h => absurd h (by simpa using hk)

theorem Refuses.check_eq {cause : Cause} (h : s.Refuses t cause) :
    s.check t = .error ⟨t.position, cause⟩ := by
  cases h with
  | goesOn hend hk => simp [check, kindMismatch, isLineEnd, hend, hk]
  | missing hk hmem =>
    have hend : s.kinds ≠ [.endOfLine] := by
      intro hend
      simp [hend] at hmem
    simp [check, kindMismatch, isLineEnd, hend, hk, hmem]
  | otherKind hend hk hmem => simp [check, kindMismatch, isLineEnd, hend, hk, hmem]
  | otherLiteral hend hmem hlisted hnot =>
    simp [check, acceptsLiteral, isLineEnd, hend, hmem, hlisted, hnot]

theorem refuses_of_check (h : s.check t = .error e) :
    e.position = t.position ∧ s.Refuses t e.cause := by
  simp only [check, kindMismatch, isLineEnd_iff] at h
  split_ifs at h with hk hl hend hlast <;> cases h
  · rw [acceptsLiteral_iff] at hl
    push Not at hl
    exact ⟨rfl, .otherLiteral hl.1 (by simpa using hk) hl.2.1 hl.2.2⟩
  · refine ⟨rfl, .goesOn hend ?_⟩
    intro hlast
    simp [hend, hlast] at hk
  · exact ⟨rfl, .missing hlast (by simpa [hlast] using hk)⟩
  · exact ⟨rfl, .otherKind hend hlast (by simpa using hk)⟩

theorem not_refuses_of_accepts {cause : Cause} (h : s.Accepts t) : ¬s.Refuses t cause := by
  intro hr
  rw [← check_eq_ok, hr.check_eq] at h
  cases h

theorem Refuses.unique {c c' : Cause} (h : s.Refuses t c) (h' : s.Refuses t c') : c = c' := by
  have heq := h.check_eq.symm.trans h'.check_eq
  simpa using heq

end Slot

namespace Shape

section Slots

variable {eol : Token} {slots : List Slot} {args : List Token} {e : Error}

theorem accepts_of_checkSlots (h : checkSlots eol slots args = .ok ()) {i : Nat} {slot : Slot}
    (hi : slots[i]? = some slot) : slot.Accepts (args[i]?.getD eol) := by
  induction slots generalizing args i with
  | nil => cases hi
  | cons s slots ih =>
    simp only [checkSlots] at h
    split at h
    · cases h
    · rename_i hs
      cases i with
      | zero =>
        cases hi
        rw [List.headD_eq_head?_getD, List.head?_eq_getElem?] at hs
        exact Slot.check_eq_ok.1 hs
      | succ i => simpa using ih h (by simpa using hi)

theorem exists_of_checkSlots_error (h : checkSlots eol slots args = .error e) :
    ∃ (i : Nat) (slot : Slot), slots[i]? = some slot ∧ slot.check (args[i]?.getD eol) = .error e ∧
      ∀ j < i, ∀ s : Slot, slots[j]? = some s → s.Accepts (args[j]?.getD eol) := by
  induction slots generalizing args with
  | nil => cases h
  | cons s slots ih =>
    simp only [checkSlots] at h
    split at h
    · rename_i hs
      cases h
      rw [List.headD_eq_head?_getD, List.head?_eq_getElem?] at hs
      exact ⟨0, s, rfl, hs, fun j hj => absurd hj (Nat.not_lt_zero j)⟩
    · rename_i hs
      obtain ⟨i, slot, hi, he, hbefore⟩ := ih h
      refine ⟨i + 1, slot, hi, by simpa using he, ?_⟩
      intro j hj s' hs'
      cases j with
      | zero =>
        cases hs'
        rw [List.headD_eq_head?_getD, List.head?_eq_getElem?] at hs
        exact Slot.check_eq_ok.1 hs
      | succ j => simpa using hbefore j (by omega) s' (by simpa using hs')

theorem kind_mem_of_checkTrailing {kinds : List Kind} (h : checkTrailing kinds args = .ok ())
    {t : Token} (ht : t ∈ args) : t.kind ∈ kinds := by
  simp only [checkTrailing] at h
  split at h
  · rename_i hnone
    simpa using List.find?_eq_none.1 hnone t ht
  · cases h

theorem exists_of_checkTrailing_error {kinds : List Kind}
    (h : checkTrailing kinds args = .error e) :
    ∃ (i : Nat) (t : Token), args[i]? = some t ∧ t.kind ∉ kinds ∧
      e = ⟨t.position, .unexpectedKind kinds t.kind⟩ ∧
      ∀ j < i, ∀ u, args[j]? = some u → u.kind ∈ kinds := by
  simp only [checkTrailing] at h
  split at h
  · cases h
  · rename_i t ht
    cases h
    obtain ⟨hmem, front, back, rfl, hfront⟩ := List.find?_eq_some_iff_append.1 ht
    refine ⟨front.length, t, by simp, by simpa using hmem, rfl, ?_⟩
    intro j hj u hu
    rw [List.getElem?_append_left hj] at hu
    simpa using hfront u (List.mem_of_getElem? hu)

end Slots

/-- What the arguments have to be: each slot accepts what stands in its place, what trails is of the
kinds for it, and nothing trails if there are none. -/
structure Accepts (s : Shape) (head : Token) (args : List Token) : Prop where
  slots : ∀ (i : Nat) (slot : Slot), s.slots[i]? = some slot → slot.Accepts (padded head args i)
  trailing : ∀ kinds, s.trailing = some kinds →
    ∀ (i : Nat) (t : Token), s.slots.length ≤ i → args[i]? = some t → t.kind ∈ kinds
  count : s.trailing = none → args.length ≤ s.slots.length

inductive Refuses (s : Shape) (head : Token) (args : List Token) (i : Nat) : Cause → Prop
  | slot {slot : Slot} {cause : Cause} (hs : s.slots[i]? = some slot)
      (hc : slot.Refuses (padded head args i) cause) : Refuses s head args i cause
  | trailing {kinds : List Kind} {t : Token} (hk : s.trailing = some kinds)
      (hi : s.slots.length ≤ i) (ht : args[i]? = some t) (hmem : t.kind ∉ kinds) :
      Refuses s head args i (.unexpectedKind kinds t.kind)
  | excess {t : Token} (hk : s.trailing = none) (hi : s.slots.length ≤ i)
      (ht : args[i]? = some t) : Refuses s head args i (.expectedEndOfLine t.kind)

/-- The error is what is wrong at the leftmost place where anything is. -/
def Blames (s : Shape) (head : Token) (args : List Token) (e : Error) : Prop :=
  ∃ i, s.Refuses head args i e.cause ∧ e.position = (padded head args i).position ∧
    ∀ j < i, ∀ cause, ¬s.Refuses head args j cause

section Check

variable {s : Shape} {head : Token} {args : List Token} {e : Error}

theorem Refuses.unique {i : Nat} {c c' : Cause} (h : s.Refuses head args i c)
    (h' : s.Refuses head args i c') : c = c' := by
  have hno {slot : Slot} (hs : s.slots[i]? = some slot) (hi : s.slots.length ≤ i) : False := by
    rw [List.getElem?_eq_none hi] at hs
    cases hs
  cases h with
  | slot hs hc =>
    cases h' with
    | slot hs' hc' =>
      rw [hs] at hs'
      cases hs'
      exact hc.unique hc'
    | trailing hk hi ht hmem => exact (hno hs hi).elim
    | excess hk hi ht => exact (hno hs hi).elim
  | trailing hk hi ht hmem =>
    cases h' with
    | slot hs hc => exact (hno hs hi).elim
    | trailing hk' hi' ht' hmem' =>
      rw [hk] at hk'
      rw [ht] at ht'
      cases hk'
      cases ht'
      rfl
    | excess hk' hi' ht' =>
      rw [hk] at hk'
      cases hk'
  | excess hk hi ht =>
    cases h' with
    | slot hs hc => exact (hno hs hi).elim
    | trailing hk' hi' ht' hmem' =>
      rw [hk] at hk'
      cases hk'
    | excess hk' hi' ht' =>
      rw [ht] at ht'
      cases ht'
      rfl

theorem Blames.unique {e' : Error} (h : s.Blames head args e) (h' : s.Blames head args e') :
    e = e' := by
  obtain ⟨i, hr, hp, hbefore⟩ := h
  obtain ⟨i', hr', hp', hbefore'⟩ := h'
  have hi : i = i' := by
    apply Nat.le_antisymm
    · exact Nat.le_of_not_lt fun hlt => hbefore i' hlt _ hr'
    · exact Nat.le_of_not_lt fun hlt => hbefore' i hlt _ hr
  subst hi
  obtain ⟨p, c⟩ := e
  obtain ⟨p', c'⟩ := e'
  cases hr.unique hr'
  cases hp.trans hp'.symm
  rfl

theorem Accepts.not_refuses (h : s.Accepts head args) {i : Nat} {cause : Cause} :
    ¬s.Refuses head args i cause := by
  intro hr
  cases hr with
  | slot hs hc => exact Slot.not_refuses_of_accepts (h.slots i _ hs) hc
  | trailing hk hi ht hmem => exact hmem (h.trailing _ hk i _ hi ht)
  | excess hk hi ht =>
    have hlt := (List.getElem?_eq_some_iff.1 ht).1
    have hle := h.count hk
    omega

theorem length_le_of_checkSlots_concat {front : List Slot} {slot : Slot} {p : Position}
    (hargs : ∀ t ∈ args, t.kind ≠ .endOfLine) (hend : slot.kinds = [.endOfLine])
    (h : checkSlots (.endOfLine p) (front ++ [slot]) args = .ok ()) :
    args.length ≤ front.length := by
  have haccepts : slot.Accepts (args[front.length]?.getD (.endOfLine p)) :=
    accepts_of_checkSlots h (by simp)
  cases ht : args[front.length]? with
  | none => exact List.getElem?_eq_none_iff.1 ht
  | some t =>
    have hk : t.kind = .endOfLine := by simpa [ht, hend] using haccepts.1
    exact absurd hk (hargs t (List.mem_of_getElem? ht))

theorem length_lt_of_lineEnd {slots : List Slot} {p : Position}
    (hargs : ∀ t ∈ args, t.kind ≠ .endOfLine) (hlast : slots.getLast?.any Slot.isLineEnd = true)
    (h : checkSlots (.endOfLine p) slots args = .ok ()) : args.length < slots.length := by
  obtain ⟨front, slot, rfl⟩ : ∃ front slot, slots = front ++ [slot] := by
    cases List.eq_nil_or_concat slots with
    | inl hnil => simp [hnil] at hlast
    | inr hcons => simpa using hcons
  have hend : slot.kinds = [.endOfLine] := by simpa [Slot.isLineEnd] using hlast
  have hle := length_le_of_checkSlots_concat hargs hend h
  simpa using Nat.lt_succ_of_le hle

/-- Where no argument stands for the end of the line, a slot for the end asks for no more than what
is asked for without one. -/
theorem check_of_not_trailing (hs : s.trailing = none) (hargs : ∀ t ∈ args, t.kind ≠ .endOfLine) :
    s.check head args =
      checkSlots (.endOfLine (args.getLastD head).position) (s.slots ++ [.lineEnd]) args := by
  have hrequired : s.check head args =
      checkSlots (.endOfLine (args.getLastD head).position) s.required args := by
    simp only [check, hs]
    split <;> simp_all
  rw [hrequired]
  simp only [required, hs]
  split
  · rename_i hlast
    rw [checkSlots_append]
    cases hc : checkSlots (.endOfLine (args.getLastD head).position) s.slots args with
    | error e => rfl
    | ok =>
      have hlt := length_lt_of_lineEnd hargs hlast hc
      rw [List.drop_eq_nil_of_le (Nat.le_of_lt hlt)]
      rfl
  · rfl

theorem check_of_trailing {kinds : List Kind} (hs : s.trailing = some kinds) :
    s.check head args =
      match checkSlots (.endOfLine (args.getLastD head).position) s.slots args with
      | .error e => .error e
      | .ok () => checkTrailing kinds (args.drop s.slots.length) := by
  simp only [check, required, hs]
  split <;> simp_all

theorem accepts_of_check (hargs : ∀ t ∈ args, t.kind ≠ .endOfLine)
    (h : s.check head args = .ok ()) : s.Accepts head args := by
  refine ⟨fun i slot hi => accepts_of_checkSlots (checkSlots_of_check h) hi, ?_, ?_⟩
  · intro kinds hk i t hi ht
    have hslots := checkSlots_of_check h
    rw [check_of_trailing hk, hslots] at h
    refine kind_mem_of_checkTrailing h (List.mem_of_getElem? (i := i - s.slots.length) ?_)
    rw [List.getElem?_drop, Nat.add_sub_cancel' hi, ht]
  · intro hk
    rw [check_of_not_trailing hk hargs] at h
    exact length_le_of_checkSlots_concat hargs rfl h

theorem not_refuses_before {i : Nat} (hi : i ≤ s.slots.length)
    (hslots : ∀ j < i, ∀ slot : Slot, s.slots[j]? = some slot → slot.Accepts (padded head args j)) :
    ∀ j < i, ∀ cause, ¬s.Refuses head args j cause := by
  intro j hj cause hr
  cases hr with
  | slot hs hc => exact Slot.not_refuses_of_accepts (hslots j hj _ hs) hc
  | trailing hk hle ht hmem => omega
  | excess hk hle ht => omega

theorem blames_of_slots
    (h : checkSlots (.endOfLine (args.getLastD head).position) s.slots args = .error e) :
    s.Blames head args e := by
  obtain ⟨i, slot, hi, he, hbefore⟩ := exists_of_checkSlots_error h
  obtain ⟨hp, hr⟩ := Slot.refuses_of_check he
  have hlt := (List.getElem?_eq_some_iff.1 hi).1
  exact ⟨i, .slot hi hr, hp, not_refuses_before (Nat.le_of_lt hlt) hbefore⟩

theorem blames_of_excess (hs : s.trailing = none)
    (hslots : checkSlots (.endOfLine (args.getLastD head).position) s.slots args = .ok ())
    {t : Token} (ht : args[s.slots.length]? = some t) :
    s.Blames head args ⟨t.position, .expectedEndOfLine t.kind⟩ := by
  refine ⟨s.slots.length, .excess hs (Nat.le_refl _) ht, ?_, ?_⟩
  · rw [padded_of_getElem? ht]
  · exact not_refuses_before (Nat.le_refl _) fun j _ slot hj => accepts_of_checkSlots hslots hj

theorem blames_of_trailing {kinds : List Kind} (hs : s.trailing = some kinds)
    (hslots : checkSlots (.endOfLine (args.getLastD head).position) s.slots args = .ok ())
    (h : checkTrailing kinds (args.drop s.slots.length) = .error e) : s.Blames head args e := by
  obtain ⟨i, t, hi, hnot, rfl, hbefore⟩ := exists_of_checkTrailing_error h
  rw [List.getElem?_drop] at hi
  refine ⟨s.slots.length + i, .trailing hs (Nat.le_add_right _ _) hi hnot, ?_, ?_⟩
  · rw [padded_of_getElem? hi]
  · intro j hj cause hr
    cases hr with
    | slot hj' hc => exact Slot.not_refuses_of_accepts (accepts_of_checkSlots hslots hj') hc
    | @trailing kinds' u hk hle hu hmem =>
      rw [hs] at hk
      cases hk
      have hu' : (args.drop s.slots.length)[j - s.slots.length]? = some u := by
        rw [List.getElem?_drop, Nat.add_sub_cancel' hle, hu]
      exact hmem (hbefore (j - s.slots.length) (by omega) u hu')
    | excess hk hle hu =>
      rw [hs] at hk
      cases hk

theorem blames_of_check (hargs : ∀ t ∈ args, t.kind ≠ .endOfLine)
    (h : s.check head args = .error e) : s.Blames head args e := by
  cases hk : s.trailing with
  | none =>
    rw [check_of_not_trailing hk hargs, checkSlots_append] at h
    cases hslots : checkSlots (.endOfLine (args.getLastD head).position) s.slots args with
    | error e' =>
      rw [hslots] at h
      cases h
      exact blames_of_slots hslots
    | ok =>
      rw [hslots] at h
      cases ht : args[s.slots.length]? with
      | none =>
        rw [List.drop_eq_nil_of_le (List.getElem?_eq_none_iff.1 ht)] at h
        cases h
      | some t =>
        obtain ⟨hlt, rfl⟩ := List.getElem?_eq_some_iff.1 ht
        have hne := hargs _ (List.getElem_mem hlt)
        rw [List.drop_eq_getElem_cons hlt] at h
        simp only [checkSlots, List.headD_cons,
          (Slot.Refuses.goesOn rfl hne : Slot.lineEnd.Refuses _ _).check_eq] at h
        cases h
        exact blames_of_excess hk hslots ht
  | some kinds =>
    rw [check_of_trailing hk] at h
    cases hslots : checkSlots (.endOfLine (args.getLastD head).position) s.slots args with
    | error e' =>
      rw [hslots] at h
      cases h
      exact blames_of_slots hslots
    | ok =>
      rw [hslots] at h
      exact blames_of_trailing hk hslots h

theorem check_eq_ok_iff (hargs : ∀ t ∈ args, t.kind ≠ .endOfLine) :
    s.check head args = .ok () ↔ s.Accepts head args := by
  constructor
  · exact accepts_of_check hargs
  · intro haccepts
    cases h : s.check head args with
    | ok => rfl
    | error e =>
      obtain ⟨i, hr, -⟩ := blames_of_check hargs h
      exact absurd hr haccepts.not_refuses

theorem check_eq_error_iff (hargs : ∀ t ∈ args, t.kind ≠ .endOfLine) :
    s.check head args = .error e ↔ s.Blames head args e := by
  constructor
  · exact blames_of_check hargs
  · intro hblames
    cases h : s.check head args with
    | ok =>
      obtain ⟨i, hr, -⟩ := hblames
      exact absurd hr (accepts_of_check hargs h).not_refuses
    | error e' => rw [(blames_of_check hargs h).unique hblames]

end Check

inductive Call where
  | expect (kind : Kind)
  | expectAny (kinds : List Kind)
  | expectLiteral (kind : Kind) (literals : List String)
  | expectTrailing (kinds : List Kind)
  | expectEnd
  deriving DecidableEq

namespace Call

def apply (s : Shape) : Call → Except ShapeMisuse Shape
  | expect kind => s.expect kind
  | expectAny kinds => s.expectAny kinds
  | expectLiteral kind literals => s.expectLiteral kind literals
  | expectTrailing kinds => s.expectTrailing kinds
  | expectEnd => s.expectEnd

def slot? : Call → Option Slot
  | expect kind => some ⟨[kind], []⟩
  | expectAny kinds => some ⟨kinds, []⟩
  | expectLiteral kind literals => some ⟨[kind], literals⟩
  | expectTrailing _ => none
  | expectEnd => some ⟨[.endOfLine], []⟩

def trailing? : Call → Option (List Kind)
  | expectTrailing kinds => some kinds
  | _ => none

end Call

def build (s : Shape) : List Call → Except ShapeMisuse Shape
  | [] => .ok s
  | c :: calls =>
    match c.apply s with
    | .error misuse => .error misuse
    | .ok s' => s'.build calls

theorem Call.apply_eq {s : Shape} (hs : s.trailing = none) (c : Call) :
    c.apply s = .ok ⟨s.slots ++ c.slot?.toList, c.trailing?⟩ := by
  cases c <;>
    simp [apply, slot?, trailing?, Shape.expect, Shape.expectAny, Shape.expectLiteral,
      Shape.expectTrailing, Shape.expectEnd, add, hs, Slot.lineEnd]

theorem build_eq_ok {s : Shape} (hs : s.trailing = none) {calls : List Call}
    (h : ∀ c ∈ calls.dropLast, c.trailing? = none) :
    s.build calls =
      .ok ⟨s.slots ++ calls.filterMap Call.slot?, calls.getLast?.bind Call.trailing?⟩ := by
  induction calls generalizing s with
  | nil =>
    obtain ⟨slots, trailing⟩ := s
    cases hs
    simp [build]
  | cons c calls ih =>
    simp only [build, c.apply_eq hs]
    cases calls with
    | nil => cases hc : c.slot? <;> simp [build, hc]
    | cons c' calls =>
      simp only [List.dropLast_cons_cons, List.forall_mem_cons] at h
      rw [ih h.1 h.2]
      cases hc : c.slot? <;> simp [hc]

theorem Call.slot?_eq_none {c : Call} (h : c.slot? = none) : c.trailing? ≠ none := by
  cases c <;> simp [slot?, trailing?] at h ⊢

theorem getElem?_filterMap_slot? {calls : List Call} (h : ∀ c ∈ calls.dropLast, c.trailing? = none)
    (i : Nat) : (calls.filterMap Call.slot?)[i]? = calls[i]?.bind Call.slot? := by
  induction calls generalizing i with
  | nil => simp
  | cons c calls ih =>
    cases calls with
    | nil => cases i <;> cases hc : c.slot? <;> simp [hc]
    | cons c' calls =>
      simp only [List.dropLast_cons_cons, List.forall_mem_cons] at h
      cases hc : c.slot? with
      | none => exact absurd h.1 (Call.slot?_eq_none hc)
      | some slot =>
        rw [List.filterMap_cons_some hc]
        cases i with
        | zero => simp [hc]
        | succ i => simpa using ih h.2 i

/-- For shapes made by requests in order, and arguments none of which stands for the end of the
line: a check passes exactly on what the shape accepts, and blames the leftmost place otherwise. -/
theorem check_blames_leftmost {calls : List Call}
    (hcalls : ∀ c ∈ calls.dropLast, c.trailing? = none) (head : Token)
    {args : List Token} (hargs : ∀ t ∈ args, t.kind ≠ .endOfLine) :
    ∃ s, empty.build calls = .ok s ∧ (∀ i : Nat, s.slots[i]? = calls[i]?.bind Call.slot?) ∧
      s.trailing = calls.getLast?.bind Call.trailing? ∧
      (s.check head args = .ok () ↔ s.Accepts head args) ∧
      ∀ e, s.check head args = .error e ↔ s.Blames head args e :=
  ⟨_, build_eq_ok rfl hcalls, getElem?_filterMap_slot? hcalls, rfl, check_eq_ok_iff hargs,
    fun _ => check_eq_error_iff hargs⟩

def switch : List Call :=
  [.expectLiteral .word ["on", "off"], .expectAny [.number, .endOfLine], .expectTrailing [.string]]

def overlong : List Token :=
  [⟨.word, "off", ⟨0, 3⟩⟩, ⟨.number, "2", ⟨0, 7⟩⟩, ⟨.string, "a", ⟨0, 9⟩⟩, ⟨.label, "b", ⟨0, 13⟩⟩,
    ⟨.word, "c", ⟨0, 16⟩⟩]

theorem check_blames_leftmost_of_overlong :
    (∀ c ∈ switch.dropLast, c.trailing? = none) ∧ (∀ t ∈ overlong, t.kind ≠ .endOfLine) ∧
      ∃ s, empty.build switch = .ok s ∧
        s.check ⟨.word, "op", ⟨0, 0⟩⟩ overlong =
          .error ⟨⟨0, 13⟩, .unexpectedKind [.string] .label⟩ ∧
        s.Blames ⟨.word, "op", ⟨0, 0⟩⟩ overlong ⟨⟨0, 13⟩, .unexpectedKind [.string] .label⟩ ∧
        s.Accepts ⟨.word, "op", ⟨0, 0⟩⟩ (overlong.take 1) := by
  have hcalls : ∀ c ∈ switch.dropLast, c.trailing? = none := by decide
  have hargs : ∀ t ∈ overlong, t.kind ≠ .endOfLine := by decide
  have hfirst : ∀ t ∈ overlong.take 1, t.kind ≠ .endOfLine := by decide
  obtain ⟨s, hs, -, -, -, herror⟩ := check_blames_leftmost hcalls ⟨.word, "op", ⟨0, 0⟩⟩ hargs
  obtain ⟨s', hs', -, -, hok, -⟩ := check_blames_leftmost hcalls ⟨.word, "op", ⟨0, 0⟩⟩ hfirst
  cases hs
  cases hs'
  exact ⟨hcalls, hargs, _, rfl, rfl, (herror _).1 rfl, hok.1 rfl⟩

theorem check_concat_lineEnd {s : Shape} (hs : s.trailing = none) (head : Token)
    {args : List Token} (hargs : ∀ t ∈ args, t.kind ≠ .endOfLine) :
    (⟨s.slots ++ [.lineEnd], none⟩ : Shape).check head args = s.check head args := by
  have hrequired : (⟨s.slots ++ [.lineEnd], none⟩ : Shape).required = s.slots ++ [.lineEnd] := by
    simp [required, Slot.isLineEnd, Slot.lineEnd]
  rw [check_of_not_trailing hs hargs, check, hrequired]
  cases checkSlots (.endOfLine (args.getLastD head).position) (s.slots ++ [.lineEnd]) args <;> rfl

theorem check_of_build_ends {s : Shape} (hs : s.trailing = none) (n : Nat) (head : Token)
    {args : List Token} (hargs : ∀ t ∈ args, t.kind ≠ .endOfLine) :
    ∃ ended, s.build (List.replicate n .expectEnd) = .ok ended ∧
      ended.slots = s.slots ++ List.replicate n .lineEnd ∧
      ended.check head args = s.check head args := by
  induction n generalizing s with
  | zero => exact ⟨s, rfl, by simp, rfl⟩
  | succ n ih =>
    obtain ⟨ended, hbuild, hslots, hcheck⟩ := ih (s := ⟨s.slots ++ [.lineEnd], none⟩) rfl
    refine ⟨ended, ?_, ?_, hcheck.trans (check_concat_lineEnd hs head hargs)⟩
    · rw [List.replicate_succ, build, Call.apply_eq hs]
      exact hbuild
    · rw [hslots, List.replicate_succ, List.append_assoc, List.singleton_append]

/-- Where nothing may trail, asking for the end of the line changes no check, however often it is
asked for: the arguments pass as before, or the same is said about them. -/
theorem explicit_end_is_implicit {s : Shape} (hs : s.trailing = none) (head : Token)
    {args : List Token} (hargs : ∀ t ∈ args, t.kind ≠ .endOfLine) :
    (∃ ended, s.expectEnd = .ok ended ∧ ended.check head args = s.check head args) ∧
      ∀ n, ∃ ended, s.build (List.replicate n .expectEnd) = .ok ended ∧
        ended.slots = s.slots ++ List.replicate n .lineEnd ∧
        ended.check head args = s.check head args :=
  ⟨⟨_, Call.apply_eq hs .expectEnd, check_concat_lineEnd hs head hargs⟩,
    fun n => check_of_build_ends hs n head hargs⟩

theorem explicit_end_is_implicit_after_optional :
    (∀ t ∈ overlong.drop 1, t.kind ≠ .endOfLine) ∧
      ∃ s ended, empty.build [.expectAny [.number, .endOfLine]] = .ok s ∧ s.trailing = none ∧
        s.build (List.replicate 3 .expectEnd) = .ok ended ∧ ended.slots.length = 4 ∧
        ended.check ⟨.word, "op", ⟨0, 0⟩⟩ (overlong.drop 1) =
          .error ⟨⟨0, 9⟩, .expectedEndOfLine .string⟩ := by
  have hargs : ∀ t ∈ overlong.drop 1, t.kind ≠ .endOfLine := by decide
  obtain ⟨-, hends⟩ := explicit_end_is_implicit (s := ⟨[⟨[.number, .endOfLine], []⟩], none⟩) rfl
    ⟨.word, "op", ⟨0, 0⟩⟩ hargs
  obtain ⟨ended, hbuild, hslots, hcheck⟩ := hends 3
  exact ⟨hargs, _, ended, rfl, rfl, hbuild, by rw [hslots]; rfl, hcheck.trans rfl⟩

end Shape
end Stackline
