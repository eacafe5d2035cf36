import ComputerNetworks.Lib.Fields

/-!
# Numbers that wrap around

Items that are numbered one after the other, modulo some number, and a front of them that is taken off
by plain comparison.
-/

universe u

namespace Lib.Serial

variable {α : Type u}

/-! ## Fronts of a list -/

theorem dropWhile_eq_drop_iff {p : α → Bool} {xs : List α} {n : Nat} :
    xs.dropWhile p = xs.drop n ↔
      (∀ x ∈ xs.take n, p x = true) ∧ ∀ x ∈ (xs.drop n).head?, p x = false := by
  constructor
  · intro h
    have hsplit : xs.takeWhile p = xs.take n := by
      have hboth := List.takeWhile_append_dropWhile (p := p) (l := xs)
      rw [h] at hboth
      exact List.append_cancel_right (hboth.trans (List.take_append_drop n xs).symm)
    refine ⟨fun x hx => ?_, fun x hx => ?_⟩
    · rw [← hsplit] at hx
      exact List.mem_takeWhile_imp hx
    · rw [← h] at hx
      exact Fields.head_dropWhile xs x hx
  · rintro ⟨hfront, hback⟩
    conv_lhs => rw [← List.take_append_drop n xs]
    rw [List.dropWhile_append_of_pos hfront, Fields.dropWhile_of_head hback]

/-! ## Consecutive numbers -/

/-- The items are numbered from `b` on, modulo `m`. -/
def Consecutive (m b : Nat) (seq : α → Nat) (xs : List α) : Prop :=
  ∀ i x, xs[i]? = some x → seq x = (b + i) % m

variable {m b : Nat} {seq : α → Nat} {xs : List α}

theorem Consecutive.drop (h : Consecutive m b seq xs) (n : Nat) :
    Consecutive m (b + n) seq (xs.drop n) := by
  intro i x hx
  rw [List.getElem?_drop] at hx
  rw [h (n + i) x hx, Nat.add_assoc]

theorem Consecutive.snoc (h : Consecutive m b seq xs) {x : α} (hx : seq x = (b + xs.length) % m) :
    Consecutive m b seq (xs ++ [x]) := by
  intro i y hy
  rcases Nat.lt_trichotomy i xs.length with hi | rfl | hi
  · rw [List.getElem?_append_left hi] at hy
    exact h i y hy
  · rw [List.getElem?_concat_length, Option.some.injEq] at hy
    rw [← hy, hx]
  · rw [List.getElem?_eq_none (by simp; omega)] at hy
    cases hy

theorem Consecutive.mod (h : Consecutive m b seq xs) : Consecutive m (b % m) seq xs := by
  intro i x hx
  rw [h i x hx, Nat.mod_add_mod]

theorem wrap_lt {k : Nat} (hb : b < m) (hk : k < m) (hwrap : m ≤ b + k) : (b + k) % m < b := by
  rw [Nat.mod_eq_sub_mod hwrap, Nat.mod_eq_of_lt (by omega)]
  omega

/-- **Plain comparison.** The items up to one are the ones with a number up to its own, and the next
one is none of these, exactly as long as neither number has wrapped around. -/
theorem Consecutive.dropWhile_iff (h : Consecutive m b seq xs) (hb : b < m) (hlen : xs.length ≤ m)
    {k : Nat} {x : α} (hx : xs[k]? = some x) :
    (xs.dropWhile fun y => seq y ≤ seq x) = xs.drop (k + 1) ↔
      b + k < m ∧ (k + 1 < xs.length → b + k + 1 < m) := by
  obtain ⟨hk, -⟩ := List.getElem?_eq_some_iff.mp hx
  rw [dropWhile_eq_drop_iff, h k x hx]
  constructor
  · rintro ⟨hfront, hback⟩
    have hlt : b + k < m := by
      by_contra hwrap
      have hwrap := wrap_lt hb (by omega) (not_lt.mp hwrap)
      -- The first item is in front of it, with a larger number.
      obtain ⟨first, hfirst⟩ : ∃ first, xs[0]? = some first :=
        ⟨_, List.getElem?_eq_getElem (by omega)⟩
      have hmem : first ∈ xs.take (k + 1) := by
        refine List.mem_of_getElem? (i := 0) ?_
        rw [List.getElem?_take, if_pos (by omega), hfirst]
      have hle := of_decide_eq_true (hfront first hmem)
      rw [h 0 first hfirst, Nat.add_zero, Nat.mod_eq_of_lt hb] at hle
      omega
    refine ⟨hlt, fun hnext => ?_⟩
    obtain ⟨next, hget⟩ : ∃ next, xs[k + 1]? = some next := ⟨_, List.getElem?_eq_getElem hnext⟩
    have hgt := of_decide_eq_false (hback next (by rw [List.head?_drop, hget]; rfl))
    rw [h (k + 1) next hget, Nat.mod_eq_of_lt hlt] at hgt
    by_contra hwrap
    have hwrap := wrap_lt (k := k + 1) hb (by omega) (by omega)
    omega
  · rintro ⟨hlt, hnext⟩
    rw [Nat.mod_eq_of_lt hlt]
    refine ⟨fun y hy => ?_, fun y hy => ?_⟩
    · obtain ⟨i, hi⟩ := List.mem_iff_getElem?.mp hy
      rw [List.getElem?_take] at hi
      split at hi
      · rw [h i y hi, Nat.mod_eq_of_lt (by omega), decide_eq_true_eq]
        omega
      · cases hi
    · rw [List.head?_drop] at hy
      obtain ⟨hlt', -⟩ := List.getElem?_eq_some_iff.mp hy
      have := hnext hlt'
      rw [h (k + 1) y hy, Nat.mod_eq_of_lt (by omega), decide_eq_false_iff_not]
      omega

end Lib.Serial
