import Mathlib.Order.Nat
import Mathlib.Tactic.Common

/-!
# Streams in pieces

What a reader with a buffer takes from a stream that comes in pieces: from one piece at a time, and no
more than the buffer holds.
-/

universe u

namespace Lib.Pieces

variable {α : Type u}

/-- One `recv` into a buffer of the length `len`, and the pieces that are left. -/
def recv (len : Nat) : List (List α) → List α × List (List α)
  | [] => ([], [])
  | piece :: pieces =>
    (piece.take len, if piece.length ≤ len then pieces else piece.drop len :: pieces)

theorem recv_flatten (len : Nat) (pieces : List (List α)) :
    (recv len pieces).1 ++ (recv len pieces).2.flatten = pieces.flatten := by
  cases pieces with
  | nil => rfl
  | cons piece pieces =>
    simp only [recv, List.flatten_cons]
    split
    · rename_i hle
      rw [List.take_of_length_le hle]
    · rw [List.flatten_cons, ← List.append_assoc, List.take_append_drop]

theorem recv_ne_nil {len : Nat} {pieces : List (List α)} (h : ∀ p ∈ pieces, p ≠ []) :
    ∀ p ∈ (recv len pieces).2, p ≠ [] := by
  cases pieces with
  | nil => exact h
  | cons piece pieces =>
    simp only [recv]
    split
    · exact fun p hp => h p (List.mem_cons_of_mem _ hp)
    · rename_i hlt
      intro p hp
      rcases List.mem_cons.mp hp with rfl | hp
      · exact fun hnil => hlt (List.drop_eq_nil_iff.mp hnil)
      · exact h p (List.mem_cons_of_mem _ hp)

/-- `recv` fills a buffer from one piece only. -/
theorem recv_full_iff {len : Nat} (hlen : 0 < len) (pieces : List (List α)) :
    (recv len pieces).1.length = len ↔
      ∃ piece rest, pieces = piece :: rest ∧ len ≤ piece.length := by
  cases pieces with
  | nil =>
    simp only [recv, List.length_nil]
    exact iff_of_false (by omega) (by simp)
  | cons piece pieces =>
    simp only [recv, List.length_take, List.cons.injEq]
    constructor
    · exact fun h => ⟨piece, pieces, ⟨rfl, rfl⟩, by omega⟩
    · rintro ⟨_, _, ⟨rfl, rfl⟩, hle⟩
      omega

theorem recv_all_iff {pieces : List (List α)} (hpieces : ∀ p ∈ pieces, p ≠ [])
    (hpos : 0 < pieces.flatten.length) :
    (recv pieces.flatten.length pieces).1.length = pieces.flatten.length ↔
      pieces = [pieces.flatten] := by
  rw [recv_full_iff hpos]
  constructor
  · rintro ⟨piece, rest, rfl, hle⟩
    have hrest : rest = [] := by
      by_contra hne
      obtain ⟨next, rest, rfl⟩ := List.exists_cons_of_ne_nil hne
      have hnext := List.length_pos_iff.mpr (hpieces next (by simp))
      simp only [List.flatten_cons, List.length_append] at hle
      omega
    simp [hrest]
  · intro h
    exact ⟨_, [], h, le_refl _⟩

theorem recv_singleton_iff {front rest : List α} {pieces : List (List α)} (hfront : front ≠ [])
    (hrest : rest ≠ []) (hstream : pieces.flatten = front ++ rest) :
    (recv front.length pieces).1.length = front.length ∧ (recv front.length pieces).2 = [rest] ↔
      pieces = [front ++ rest] ∨ pieces = [front, rest] := by
  have hpos := List.length_pos_iff.mpr hfront
  constructor
  · rintro ⟨hfull, hleft⟩
    obtain ⟨piece, pieces, rfl, hle⟩ := (recv_full_iff hpos _).mp hfull
    rw [List.flatten_cons] at hstream
    rw [recv] at hleft
    split at hleft
    · rename_i hge
      obtain ⟨rfl, -⟩ := List.append_inj hstream (le_antisymm hge hle)
      exact Or.inr (congrArg (piece :: ·) hleft)
    · obtain ⟨-, rfl⟩ := List.cons.inj hleft
      rw [List.flatten_nil, List.append_nil] at hstream
      exact Or.inl (by rw [hstream])
  · rintro (rfl | rfl)
    · have hlt : ¬(front ++ rest).length ≤ front.length := by
        have hrestPos := List.length_pos_iff.mpr hrest
        rw [List.length_append]
        omega
      rw [recv, if_neg hlt, List.take_left, List.drop_left]
      exact ⟨rfl, rfl⟩
    · rw [recv, if_pos (le_refl _), List.take_length]
      exact ⟨rfl, rfl⟩

theorem exists_piece {n : Nat} (hn : 0 < n) {pieces : List (List α)} (h : n ≤ pieces.flatten.length) :
    ∃ front piece back, pieces = front ++ piece :: back ∧ front.flatten.length < n ∧
      n ≤ (front.flatten ++ piece).length := by
  induction pieces generalizing n with
  | nil => exact absurd h (Nat.not_le.mpr hn)
  | cons piece pieces ih =>
    by_cases hpiece : n ≤ piece.length
    · exact ⟨[], piece, pieces, rfl, hn, hpiece⟩
    · rw [List.flatten_cons, List.length_append] at h
      obtain ⟨front, next, back, rfl, hlt, hle⟩ := ih (n := n - piece.length) (by omega) (by omega)
      refine ⟨piece :: front, next, back, rfl, ?_, ?_⟩ <;>
      · simp only [List.flatten_cons, List.length_append] at *
        omega

theorem recv_flatten_iff {pieces : List (List α)} (hpieces : ∀ p ∈ pieces, p ≠ []) :
    (recv pieces.flatten.length pieces).1 = pieces.flatten ↔ pieces.length ≤ 1 := by
  cases pieces with
  | nil => simp [recv]
  | cons piece pieces =>
    have hpos : 0 < (piece :: pieces).flatten.length := by
      have := List.length_pos_iff.mpr (hpieces piece List.mem_cons_self)
      rw [List.flatten_cons, List.length_append]
      omega
    have hall := recv_all_iff hpieces hpos
    constructor
    · intro h
      rw [hall.mp (congrArg List.length h)]
      exact Nat.le_refl 1
    · intro h
      obtain rfl : pieces = [] := List.eq_nil_of_length_eq_zero (by
        rw [List.length_cons] at h
        omega)
      simp [recv]

end Lib.Pieces
