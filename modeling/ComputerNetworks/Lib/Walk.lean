import Mathlib.Data.List.Forall2

/-!
# Walks

Steps that carry an item, one after the other: what is read on the way from one place to another.
-/

universe u v

namespace Lib

variable {σ : Type u} {ι : Type v}

/-- `Walk step s items t`: from `s`, reading `items` step by step, one comes to `t`. -/
inductive Walk (step : σ → ι → σ → Prop) : σ → List ι → σ → Prop where
  | nil (s : σ) : Walk step s [] s
  | cons {s t u : σ} {i : ι} {items : List ι} :
      step s i t → Walk step t items u → Walk step s (i :: items) u

def Deterministic (step : σ → ι → σ → Prop) : Prop :=
  ∀ ⦃s i j t u⦄, step s i t → step s j u → i = j ∧ t = u

def Stuck (step : σ → ι → σ → Prop) (s : σ) : Prop := ∀ i t, ¬ step s i t

namespace Walk

variable {step : σ → ι → σ → Prop} {s t u : σ} {p q : List ι}

theorem append (h : Walk step s p t) (h' : Walk step t q u) : Walk step s (p ++ q) u := by
  induction h with
  | nil => exact h'
  | cons hs _ ih => exact .cons hs (ih h')

theorem snoc (h : Walk step s p t) {i : ι} (hi : step t i u) : Walk step s (p ++ [i]) u :=
  h.append (.cons hi (.nil u))

theorem split (h : Walk step s (p ++ q) u) : ∃ t, Walk step s p t ∧ Walk step t q u := by
  induction p generalizing s with
  | nil => exact ⟨s, .nil s, h⟩
  | cons i p ih =>
    cases h with
    | cons hs h =>
      obtain ⟨t, ht, hu⟩ := ih h
      exact ⟨t, .cons hs ht, hu⟩

theorem exists_step (h : Walk step s p t) {i : ι} (hi : i ∈ p) : ∃ a b, step a i b := by
  induction h with
  | nil => simp at hi
  | cons hs _ ih =>
    rcases List.mem_cons.mp hi with rfl | hi
    · exact ⟨_, _, hs⟩
    · exact ih hi

theorem comparable (hdet : Deterministic step) (hp : Walk step s p t) :
    ∀ {q u}, Walk step s q u →
      (∃ r, q = p ++ r ∧ Walk step t r u) ∨ ∃ r, p = q ++ r ∧ Walk step u r t := by
  induction hp with
  | nil s => intro q u hq; exact Or.inl ⟨q, rfl, hq⟩
  | @cons s m t i p hs hp ih =>
    intro q u hq
    cases hq with
    | nil => exact Or.inr ⟨_, rfl, .cons hs hp⟩
    | cons hs' hq =>
      obtain ⟨rfl, rfl⟩ := hdet hs hs'
      rcases ih hq with ⟨r, rfl, hr⟩ | ⟨r, rfl, hr⟩
      · exact Or.inl ⟨r, rfl, hr⟩
      · exact Or.inr ⟨r, rfl, hr⟩

theorem nil_of_stuck (h : Walk step s p t) (hs : Stuck step s) : p = [] ∧ s = t := by
  cases h with
  | nil => exact ⟨rfl, rfl⟩
  | cons hi _ => exact absurd hi (hs _ _)

theorem of_stuck (hdet : Deterministic step) (hp : Walk step s p t) (ht : Stuck step t)
    (hq : Walk step s q u) : ∃ r, p = q ++ r ∧ Walk step u r t := by
  rcases hp.comparable hdet hq with ⟨r, rfl, hr⟩ | h
  · obtain ⟨rfl, rfl⟩ := hr.nil_of_stuck ht
    exact ⟨[], by simp, .nil _⟩
  · exact h

theorem map {κ : Type*} {step' : σ → κ → σ → Prop} {P : ι → κ → Prop} (h : Walk step s p t)
    (hmap : ∀ i ∈ p, ∀ s t, step s i t → ∃ k, step' s k t ∧ P i k) :
    ∃ q, Walk step' s q t ∧ List.Forall₂ P p q := by
  induction h with
  | nil s => exact ⟨[], .nil s, .nil⟩
  | cons hi _ ih =>
    obtain ⟨k, hk, hP⟩ := hmap _ (List.mem_cons_self) _ _ hi
    obtain ⟨q, hq, hall⟩ := ih fun i h => hmap i (List.mem_cons_of_mem _ h)
    exact ⟨k :: q, .cons hk hq, .cons hP hall⟩

end Walk

end Lib
