/-! Repeating a text, by doubling, so that the work follows the length of the result. -/
namespace Stackline.Text

def repeated (s : String) (n : Nat) : String :=
  if n = 0 then ""
  else
    let half := repeated s (n / 2)
    if n % 2 = 0 then half ++ half else half ++ half ++ s
termination_by n
decreasing_by omega

theorem toList_repeated (s : String) (n : Nat) :
    (repeated s n).toList = (List.replicate n s.toList).flatten := by
  induction n using Nat.strongRecOn with
  | ind n ih =>
    rw [repeated]
    by_cases hn : n = 0
    · simp [hn]
    · have hl := ih (n / 2) (by omega)
      have split : List.replicate n s.toList = List.replicate (n / 2) s.toList ++
          List.replicate (n / 2) s.toList ++ List.replicate (n % 2) s.toList := by
        simp only [List.replicate_append_replicate]
        congr 1
        omega
      rw [split]
      by_cases hp : n % 2 = 0
      · simp [hn, hp, hl, -List.replicate_append_replicate]
      · have h1 : n % 2 = 1 := by omega
        simp [hn, h1, hl, -List.replicate_append_replicate]

theorem utf8ByteSize_repeated (s : String) (n : Nat) :
    (repeated s n).utf8ByteSize = s.utf8ByteSize * n := by
  induction n using Nat.strongRecOn with
  | ind n ih =>
    rw [repeated]
    by_cases hn : n = 0
    · simp [hn]
    · have hl := ih (n / 2) (by omega)
      by_cases hp : n % 2 = 0
      · have split : n = n / 2 + n / 2 := by omega
        simp only [hn, hp, if_true, if_false, String.utf8ByteSize_append, hl]
        rw [← Nat.mul_add, ← split]
      · have split : n = n / 2 + n / 2 + 1 := by omega
        simp only [hn, hp, if_false, String.utf8ByteSize_append, hl]
        rw [← Nat.mul_add, ← Nat.mul_succ, Nat.succ_eq_add_one, ← split]

end Stackline.Text
