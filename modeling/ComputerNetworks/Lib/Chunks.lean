import Mathlib.Tactic.Ring

/-!
# Chunks of a list

A list cut into pieces of `m` items, the last one maybe shorter.
-/

namespace Lib.Chunks

variable {α : Type*} {m : Nat}

def chunk (m : Nat) (l : List α) (k : Nat) : List α := (l.drop (k * m)).take m

/-- How many pieces have an item in them. -/
def count (m : Nat) (l : List α) : Nat := (l.length + m - 1) / m

def joined (m : Nat) (l : List α) (n : Nat) : List α := ((List.range n).map (chunk m l)).flatten

theorem lt_count_iff (hm : 0 < m) (l : List α) (k : Nat) : k < count m l ↔ k * m < l.length := by
  unfold count
  rw [Nat.lt_iff_add_one_le, Nat.le_div_iff_mul_le hm, Nat.succ_mul]
  omega

theorem chunk_length (l : List α) (k : Nat) : (chunk m l k).length = min m (l.length - k * m) := by
  simp [chunk]

theorem chunk_eq_nil_iff (hm : 0 < m) (l : List α) (k : Nat) :
    chunk m l k = [] ↔ count m l ≤ k := by
  rw [← List.length_eq_zero_iff, chunk_length, ← not_lt, lt_count_iff hm]
  omega

theorem joined_succ (l : List α) (n : Nat) : joined m l (n + 1) = joined m l n ++ chunk m l n := by
  simp [joined, List.range_succ]

theorem joined_eq_take (l : List α) (n : Nat) : joined m l n = l.take (n * m) := by
  induction n with
  | zero => simp [joined]
  | succ n ih => rw [joined_succ, ih, chunk, Nat.succ_mul, List.take_add]

theorem length_le_count_mul (hm : 0 < m) (l : List α) : l.length ≤ count m l * m := by
  rw [← not_lt, ← lt_count_iff hm]
  exact lt_irrefl _

theorem joined_count (hm : 0 < m) (l : List α) : joined m l (count m l) = l := by
  rw [joined_eq_take]
  exact List.take_of_length_le (length_le_count_mul hm l)

end Lib.Chunks
