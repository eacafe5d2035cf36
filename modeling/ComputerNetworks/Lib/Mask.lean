import Mathlib.Data.List.Forall2

/-!
# Masked texts

A text in which one letter stands for every letter outside a class, and what can still be told from
it.
-/

universe u

namespace Lib.Mask

variable {α : Type u}

/-- Puts `blank` in the place of every letter that is not kept. -/
def mask (keep : α → Bool) (blank : α) (text : List α) : List α :=
  text.map fun c => if keep c then c else blank

/-- Two letters that a mask makes one: the same one, or two that are not kept. -/
def Alike (keep : α → Bool) (c d : α) : Prop := c = d ∨ keep c = false ∧ keep d = false

instance [DecidableEq α] (keep : α → Bool) (c d : α) : Decidable (Alike keep c d) :=
  inferInstanceAs (Decidable (_ ∨ _))

theorem mask_append (keep : α → Bool) (blank : α) (text text' : List α) :
    mask keep blank (text ++ text') = mask keep blank text ++ mask keep blank text' :=
  List.map_append

theorem mask_of_kept {keep : α → Bool} (blank : α) {text : List α} (h : ∀ c ∈ text, keep c = true) :
    mask keep blank text = text := by
  refine Eq.trans (List.map_congr_left fun c hc => ?_) (List.map_id text)
  rw [if_pos (h c hc)]
  rfl

theorem letter_eq_iff {keep : α → Bool} {blank : α} (hblank : keep blank = false) (c d : α) :
    ((if keep c then c else blank) = if keep d then d else blank) ↔ Alike keep c d := by
  unfold Alike
  constructor
  · intro h
    split at h <;> split at h
    · exact Or.inl h
    · rename_i hc _
      rw [h, hblank] at hc
      cases hc
    · rename_i hd
      rw [← h, hblank] at hd
      cases hd
    · rename_i hc hd
      exact Or.inr ⟨Bool.eq_false_iff.mpr hc, Bool.eq_false_iff.mpr hd⟩
  · rintro (rfl | ⟨hc, hd⟩)
    · rfl
    · rw [hc, hd]
      rfl

/-- **What a mask hides.** Two texts become one exactly when they are alike letter for letter. -/
theorem mask_eq_iff {keep : α → Bool} {blank : α} (hblank : keep blank = false)
    (text text' : List α) :
    mask keep blank text = mask keep blank text' ↔ List.Forall₂ (Alike keep) text text' := by
  have hletter : (fun c d => (if keep c then c else blank) = if keep d then d else blank) =
      Alike keep := by
    funext c d
    exact propext (letter_eq_iff hblank c d)
  rw [mask, mask, ← List.forall₂_eq_eq_eq, List.forall₂_map_left_iff, List.forall₂_map_right_iff,
    hletter]

end Lib.Mask
