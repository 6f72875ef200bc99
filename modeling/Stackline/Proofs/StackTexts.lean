import Stackline.Proofs.Numerals

/-! How a stack is shown. Each value is shown in a way that tells it apart from all others and that
tells where it ends, whatever comes behind it; so the text of a stack of integers and texts belongs
to no other such stack. This does not hang on which characters count as unprintable. -/
namespace Stackline

namespace Text

/-- How a character stands inside quotes if those in `hidden` are written as code points, unless they
have a short escape. -/
def escapeWith (hidden : Char → Bool) (c : Char) : String :=
  match shortEscape? c with
  | some e => e
  | none => if hidden c then codePoint c else c.toString

def quoteWith (hidden : Char → Bool) (s : String) : String :=
  String.ofList ('"' :: (s.toList.flatMap fun c => (escapeWith hidden c).toList) ++ ['"'])

theorem quoteWith_isUnprintable (s : String) : quoteWith isUnprintable s = quote s := by
  rw [← String.toList_inj, toList_quote, quoteWith, String.toList_ofList]
  rfl

end Text

def Value.quotedWith (hidden : Char → Bool) : Value → String
  | text s => Text.quoteWith hidden s
  | v => v.render

def Stack.textWith (hidden : Char → Bool) (s : Stack) : String :=
  match s.toList with
  | [] => "[]"
  | values => "[ " ++ ", ".intercalate (values.map (Value.quotedWith hidden)) ++ " ]"

theorem Stack.textWith_isUnprintable (s : Stack) : s.textWith Text.isUnprintable = s.text := by
  have hvalue : Value.quotedWith Text.isUnprintable = Value.quoted := by
    funext v
    cases v with
    | text s => exact Text.quoteWith_isUnprintable s
    | _ => rfl
  cases hlist : s.toList with
  | nil => simp only [textWith, text, hlist]
  | cons v vs => simp only [textWith, text, hlist, hvalue]

namespace Text

section CodePoints

def hexDigit (d : Char) : Nat :=
  if d.isDigit then d.toNat - '0'.toNat else d.toNat - 'a'.toNat + 10

def hexValue (ds : List Char) : Nat :=
  ds.foldl (fun n d => 16 * n + hexDigit d) 0

theorem hexDigit_digitChar {k : Nat} (h : k < 16) : hexDigit k.digitChar = k := by
  have hall : ∀ k < 16, hexDigit (Nat.digitChar k) = k := by decide
  exact hall k h

theorem hexValue_toDigits (n : Nat) : hexValue (Nat.toDigits 16 n) = n := by
  induction n using Nat.strongRecOn with
  | ind n ih =>
    by_cases hn : n < 16
    · rw [Nat.toDigits_of_lt_base hn]
      simp [hexValue, hexDigit_digitChar hn]
    · have hfront := ih (n / 16) (by omega)
      have hlast := hexDigit_digitChar (Nat.mod_lt n (by decide : 0 < 16))
      rw [Nat.toDigits_of_base_le (by decide) (by omega), hexValue, List.foldl_append]
      change 16 * hexValue (Nat.toDigits 16 (n / 16)) + hexDigit (n % 16).digitChar = n
      rw [hfront, hlast]
      omega

theorem exists_of_mem_toDigits {n : Nat} {d : Char} (h : d ∈ Nat.toDigits 16 n) :
    ∃ k < 16, d = Nat.digitChar k := by
  induction n using Nat.strongRecOn with
  | ind n ih =>
    by_cases hn : n < 16
    · rw [Nat.toDigits_of_lt_base hn, List.mem_singleton] at h
      exact ⟨n, hn, h⟩
    · rw [Nat.toDigits_of_base_le (by decide) (by omega), List.mem_append, List.mem_singleton] at h
      cases h with
      | inl hfront => exact ih (n / 16) (by omega) hfront
      | inr hlast => exact ⟨n % 16, Nat.mod_lt n (by decide), hlast⟩

theorem ne_brace_of_mem_toDigits {n : Nat} : ∀ d ∈ Nat.toDigits 16 n, (d != '\x7d') = true := by
  have hall : ∀ k < 16, (Nat.digitChar k != '\x7d') = true := by decide
  intro d hd
  obtain ⟨k, hk, rfl⟩ := exists_of_mem_toDigits hd
  exact hall k hk

end CodePoints

section Decoding

def shortMeaning? : Char → Option Char
  | '0' => some '\x00'
  | 't' => some '\t'
  | 'n' => some '\n'
  | 'r' => some '\r'
  | '"' => some '"'
  | '\\' => some '\\'
  | _ => none

def firstShown? : List Char → Option (Char × List Char)
  | [] => none
  | '\\' :: 'u' :: '\x7b' :: rest =>
    some (Char.ofNat (hexValue (rest.takeWhile (· != '\x7d'))),
      (rest.dropWhile (· != '\x7d')).tail)
  | '\\' :: e :: rest => (shortMeaning? e).map (·, rest)
  | c :: rest => some (c, rest)

theorem firstShown?_codePoint (c : Char) (rest : List Char) :
    firstShown? ((codePoint c).toList ++ rest) = some (c, rest) := by
  obtain ⟨htake, hdrop⟩ : _ ∧ (Nat.toDigits 16 c.toNat ++ '\x7d' :: rest).dropWhile
      (· != '\x7d') = '\x7d' :: rest := span_append ne_brace_of_mem_toDigits (by simp)
  have hform : (codePoint c).toList ++ rest =
      '\\' :: 'u' :: '\x7b' :: (Nat.toDigits 16 c.toNat ++ '\x7d' :: rest) := by
    simp [codePoint]
  rw [hform, firstShown?, htake, hdrop, hexValue_toDigits, Char.ofNat_toNat]
  rfl

/-- A character is known from how it is shown, and so is where it ends. -/
theorem firstShown?_escapeWith (hidden : Char → Bool) (c : Char) (rest : List Char) :
    firstShown? ((escapeWith hidden c).toList ++ rest) = some (c, rest) := by
  unfold escapeWith
  split
  · rename_i e he
    unfold shortEscape? at he
    split at he <;> cases he <;> rfl
  · rename_i hnone
    split
    · exact firstShown?_codePoint c rest
    · have hslash : c ≠ '\\' := by
        rintro rfl
        cases hnone
      unfold firstShown?
      simp [hslash]

end Decoding

variable {hidden : Char → Bool}

/-- The closing quote ends a text, as a quote that belongs to it is shown with a backslash. -/
theorem eq_of_shown_eq {s t rest rest' : List Char}
    (h : (s.flatMap fun c => (escapeWith hidden c).toList) ++ '"' :: rest =
      (t.flatMap fun c => (escapeWith hidden c).toList) ++ '"' :: rest') :
    s = t ∧ rest = rest' := by
  have hquote {c : Char} {front rest : List Char}
      (h : '"' :: rest = (escapeWith hidden c).toList ++ front) : False := by
    have hfirst := firstShown?_escapeWith hidden c front
    rw [← h] at hfirst
    cases hfirst
    simp [escapeWith, shortEscape?] at h
  induction s generalizing t with
  | nil =>
    cases t with
    | nil => exact ⟨rfl, by simpa using h⟩
    | cons d t =>
      rw [List.flatMap_cons, List.append_assoc] at h
      exact (hquote h).elim
  | cons c s ih =>
    cases t with
    | nil =>
      rw [List.flatMap_cons, List.append_assoc] at h
      exact (hquote h.symm).elim
    | cons d t =>
      rw [List.flatMap_cons, List.flatMap_cons, List.append_assoc, List.append_assoc] at h
      have hfirst := firstShown?_escapeWith hidden c
        ((s.flatMap fun c => (escapeWith hidden c).toList) ++ '"' :: rest)
      rw [h, firstShown?_escapeWith] at hfirst
      obtain ⟨rfl, hlater⟩ := Prod.mk.inj (Option.some.inj hfirst)
      obtain ⟨rfl, hrest⟩ := ih hlater.symm
      exact ⟨rfl, hrest⟩

end Text

section Values

def isNumeralChar (c : Char) : Bool :=
  c.isDigit || c == '-' || c == '+'

theorem IsNumeral.isNumeralChar {cs : List Char} {n : Int} (h : IsNumeral cs n) :
    ∀ c ∈ cs, isNumeralChar c = true := by
  have hdigit {ds : List Char} (hds : ∀ d ∈ ds, d.isDigit = true) :
      ∀ d ∈ ds, Stackline.isNumeralChar d = true := by
    intro d hd
    simp [Stackline.isNumeralChar, hds d hd]
  cases h with
  | unsigned nonempty digits => exact hdigit digits
  | positive nonempty digits => exact List.forall_mem_cons.2 ⟨by decide, hdigit digits⟩
  | negative nonempty digits => exact List.forall_mem_cons.2 ⟨by decide, hdigit digits⟩

theorem IsNumeral.ne_nil {cs : List Char} {n : Int} (h : IsNumeral cs n) : cs ≠ [] := by
  cases h with
  | unsigned nonempty digits => exact nonempty
  | positive nonempty digits => exact List.cons_ne_nil _ _
  | negative nonempty digits => exact List.cons_ne_nil _ _

theorem IsNumeral.unique {cs : List Char} {m n : Int} (hm : IsNumeral cs m) (hn : IsNumeral cs n) :
    m = n := by
  cases hsplit : Value.splitSign cs with
  | mk negative ds => rw [((isNumeral_iff hsplit).1 hm).2, ((isNumeral_iff hsplit).1 hn).2]

variable {hidden : Char → Bool} {rest rest' : List Char}

/-- Nothing of which an integer is written stands in front. -/
def Separated (rest : List Char) : Prop :=
  ∀ c, rest.head? = some c → isNumeralChar c = false

theorem eq_of_repr_append_eq {m n : Int} (hrest : Separated rest) (hrest' : Separated rest')
    (h : m.repr.toList ++ rest = n.repr.toList ++ rest') : m = n ∧ rest = rest' := by
  obtain ⟨hm, hr⟩ := span_append (isNumeral_repr m).isNumeralChar hrest
  obtain ⟨hn, hr'⟩ := span_append (isNumeral_repr n).isNumeralChar hrest'
  rw [h] at hm hr
  have hsame : m.repr.toList = n.repr.toList := hm.symm.trans hn
  have hnumeral := isNumeral_repr m
  rw [hsame] at hnumeral
  exact ⟨hnumeral.unique (isNumeral_repr n), hr.symm.trans hr'⟩

theorem repr_append_ne_quote (n : Int) (front : List Char) :
    n.repr.toList ++ front ≠ '"' :: rest := by
  intro h
  have hnumeral := isNumeral_repr n
  obtain ⟨c, cs, hcs⟩ := List.exists_cons_of_ne_nil hnumeral.ne_nil
  rw [hcs] at h hnumeral
  cases h
  exact absurd (hnumeral.isNumeralChar _ List.mem_cons_self) (by decide)

theorem Value.toList_quotedWith_text (s : String) :
    ((text s).quotedWith hidden).toList ++ rest =
      '"' :: ((s.toList.flatMap fun c => (Text.escapeWith hidden c).toList) ++ '"' :: rest) := by
  simp [quotedWith, Text.quoteWith]

theorem Value.eq_of_quotedWith_append_eq {v w : Value} (hv : v.type ≠ .float)
    (hw : w.type ≠ .float) (hrest : Separated rest) (hrest' : Separated rest')
    (h : (v.quotedWith hidden).toList ++ rest = (w.quotedWith hidden).toList ++ rest') :
    v = w ∧ rest = rest' := by
  cases v with
  | float x => exact absurd rfl hv
  | int m =>
    cases w with
    | float x => exact absurd rfl hw
    | int n =>
      obtain ⟨hvalue, hend⟩ := eq_of_repr_append_eq hrest hrest' h
      exact ⟨congrArg int (Int64.toInt_inj.1 hvalue), hend⟩
    | text t =>
      rw [toList_quotedWith_text] at h
      exact absurd h (repr_append_ne_quote m.toInt rest)
  | text s =>
    rw [toList_quotedWith_text] at h
    cases w with
    | float x => exact absurd rfl hw
    | int n => exact absurd h.symm (repr_append_ne_quote n.toInt rest')
    | text t =>
      rw [toList_quotedWith_text] at h
      obtain ⟨htext, hend⟩ := Text.eq_of_shown_eq (List.cons.inj h).2
      exact ⟨congrArg text (String.toList_inj.1 htext), hend⟩

end Values

namespace Stack

variable {hidden : Char → Bool}

def following (hidden : Char → Bool) : List Value → List Char
  | [] => [' ', ']']
  | v :: vs => ',' :: ' ' :: ((v.quotedWith hidden).toList ++ following hidden vs)

theorem separated_following (vs : List Value) : Separated (following hidden vs) := by
  intro c hc
  cases vs <;> cases hc <;> decide

theorem toList_intercalate_quotedWith (v : Value) (vs : List Value) :
    (", ".intercalate ((v :: vs).map (Value.quotedWith hidden)) ++ " ]").toList =
      (v.quotedWith hidden).toList ++ following hidden vs := by
  rw [String.toList_append, String.toList_intercalate]
  induction vs generalizing v with
  | nil => simp [following]
  | cons w vs ih =>
    have hlater := ih w
    simp only [List.map_cons] at hlater ⊢
    rw [List.intercalate_cons_cons, List.append_assoc, hlater, following]
    simp

theorem following_inj {vs ws : List Value} (hvs : ∀ v ∈ vs, v.type ≠ .float)
    (hws : ∀ w ∈ ws, w.type ≠ .float) (h : following hidden vs = following hidden ws) :
    vs = ws := by
  induction vs generalizing ws with
  | nil =>
    cases ws with
    | nil => rfl
    | cons w ws => cases h
  | cons v vs ih =>
    cases ws with
    | nil => cases h
    | cons w ws =>
      simp only [following, List.cons.injEq, true_and] at h
      -- Neither first value can reach into the separator behind it, so they end at one place.
      obtain ⟨rfl, hlater⟩ := Value.eq_of_quotedWith_append_eq (hvs v List.mem_cons_self)
        (hws w List.mem_cons_self) (separated_following vs) (separated_following ws) h
      rw [ih (fun u hu => hvs u (List.mem_cons_of_mem v hu))
        (fun u hu => hws u (List.mem_cons_of_mem v hu)) hlater]

theorem toList_textWith (s : Stack) :
    (s.textWith hidden).toList =
      match s.toList with
      | [] => ['[', ']']
      | v :: vs => '[' :: ' ' :: ((v.quotedWith hidden).toList ++ following hidden vs) := by
  unfold textWith
  cases s.toList with
  | nil => simp
  | cons v vs =>
    simp only
    rw [String.append_assoc, String.toList_append, toList_intercalate_quotedWith]
    rfl

theorem eq_of_textWith_eq {s t : Stack} (hs : ∀ v ∈ s.items, v.type ≠ .float)
    (ht : ∀ v ∈ t.items, v.type ≠ .float) (h : s.textWith hidden = t.textWith hidden) : s = t := by
  have hlist : s.toList = t.toList := by
    have hchars := congrArg String.toList h
    rw [toList_textWith, toList_textWith] at hchars
    have hs' : ∀ v ∈ s.toList, v.type ≠ .float := fun v hv => hs v (List.mem_reverse.1 hv)
    have ht' : ∀ v ∈ t.toList, v.type ≠ .float := fun v hv => ht v (List.mem_reverse.1 hv)
    cases hsl : s.toList with
    | nil =>
      cases htl : t.toList with
      | nil => rfl
      | cons w ws => simp [hsl, htl] at hchars
    | cons v vs =>
      cases htl : t.toList with
      | nil => simp [hsl, htl] at hchars
      | cons w ws =>
        rw [hsl] at hs' hchars
        rw [htl] at ht' hchars
        exact following_inj hs' ht' (congrArg (',' :: ·) (List.cons.inj hchars).2)
  rw [← ofList_toList s, hlist, ofList_toList]

end Stack

/-- Two stacks of integers and texts that are shown alike are equal, whichever characters without a
short escape are shown as code points; so it is for those that are unprintable. -/
theorem stack_text_is_unambiguous {s t : Stack} (hs : ∀ v ∈ s.items, v.type ≠ .float)
    (ht : ∀ v ∈ t.items, v.type ≠ .float) :
    (∀ hidden, s.textWith hidden = t.textWith hidden → s = t) ∧ (s.text = t.text → s = t) := by
  refine ⟨fun hidden h => Stack.eq_of_textWith_eq hs ht h, ?_⟩
  intro h
  rw [← Stack.textWith_isUnprintable, ← Stack.textWith_isUnprintable t] at h
  exact Stack.eq_of_textWith_eq hs ht h

/-- Two texts, and one text that looks like them; and a letter that is shown as its code point, and a
text that spells it. -/
theorem lookalikes_are_shown_apart :
    Stack.text ⟨[.text "b", .text "a", .int (-1)]⟩ ≠ Stack.text ⟨[.text "a\", \"b", .int (-1)]⟩ ∧
      Stack.textWith (· == 'A') ⟨[.text "A"]⟩ ≠
        Stack.textWith (· == 'A') ⟨[.text "\\u\x7b41\x7d"]⟩ := by
  constructor
  · intro h
    exact absurd ((stack_text_is_unambiguous (by decide) (by decide)).2 h) (by decide)
  · intro h
    exact absurd ((stack_text_is_unambiguous (by decide) (by decide)).1 _ h) (by decide)

end Stackline
