import Mathlib.Logic.Relation

/-!
# Transition systems

Reachable states, the one induction that every invariant of a run goes through, and what some
continuation of a run comes to.
-/

universe u v

namespace Lib

structure System (σ : Type u) where
  init : σ → Prop
  step : σ → σ → Prop

namespace System

variable {σ : Type u} (S : System σ)

inductive Reachable : σ → Prop where
  | init {s : σ} : S.init s → Reachable s
  | step {s t : σ} : Reachable s → S.step s t → Reachable t

variable {S}

/-- What holds at the start and survives every step holds in every reachable state. The step may
use a fact `J` that is known to hold in reachable states. -/
theorem Reachable.invariant {J I : σ → Prop} (hJ : ∀ s, S.Reachable s → J s)
    (hinit : ∀ s, S.init s → I s) (hstep : ∀ s t, J s → J t → I s → S.step s t → I t)
    {s : σ} (h : S.Reachable s) : I s := by
  induction h with
  | init h0 => exact hinit _ h0
  | step hr hs ih => exact hstep _ _ (hJ _ hr) (hJ _ (hr.step hs)) ih hs

variable (S) in
/-- The runs whose steps all meet a condition. -/
def within (R : σ → σ → Prop) : System σ where
  init := S.init
  step s t := S.step s t ∧ R s t

theorem Reachable.of_within {R : σ → σ → Prop} {s : σ} (h : (S.within R).Reachable s) :
    S.Reachable s := by
  induction h with
  | init h0 => exact .init h0
  | step _ hs ih => exact ih.step hs.1

/-! ## Continuations -/

variable (S) in
def Leads : σ → σ → Prop := Relation.ReflTransGen S.step

theorem Leads.refl (s : σ) : S.Leads s s := Relation.ReflTransGen.refl

theorem Leads.of_step {s t : σ} (h : S.step s t) : S.Leads s t := Relation.ReflTransGen.single h

theorem Leads.step {s t u : σ} (h : S.Leads s t) (h' : S.step t u) : S.Leads s u :=
  Relation.ReflTransGen.tail h h'

theorem Leads.trans {s t u : σ} (h : S.Leads s t) (h' : S.Leads t u) : S.Leads s u :=
  Relation.ReflTransGen.trans h h'

theorem Leads.of_within {R : σ → σ → Prop} {s t : σ} (h : (S.within R).Leads s t) : S.Leads s t := by
  induction h with
  | refl => exact .refl s
  | tail _ hstep ih => exact ih.step hstep.1

theorem Reachable.leads {s t : σ} (h : S.Reachable s) (hst : S.Leads s t) : S.Reachable t := by
  induction hst with
  | refl => exact h
  | tail _ hstep ih => exact ih.step hstep

/-- **Traps.** What every step from a reachable state keeps is kept for good. -/
theorem Reachable.trapped {T : σ → Prop} (hstep : ∀ s t, S.Reachable s → T s → S.step s t → T t)
    {s t : σ} (h : S.Reachable s) (hT : T s) (hst : S.Leads s t) : T t := by
  induction hst with
  | refl => exact hT
  | tail hleads hs ih => exact hstep _ _ (h.leads hleads) ih hs

/-- **Simulation.** What a system does, another one can do beside it. -/
theorem Reachable.beside {τ : Type v} {T : System τ} {R : σ → τ → Prop}
    (hinit : ∀ s, S.init s → ∃ t, T.init t ∧ R s t)
    (hstep : ∀ s s' t, S.Reachable s → T.Reachable t → R s t → S.step s s' → ∃ t', T.Leads t t' ∧ R s' t')
    {s : σ} (h : S.Reachable s) : ∃ t, T.Reachable t ∧ R s t := by
  induction h with
  | init h0 =>
    obtain ⟨t, ht, hR⟩ := hinit _ h0
    exact ⟨t, .init ht, hR⟩
  | step hr hs ih =>
    obtain ⟨t, ht, hR⟩ := ih
    obtain ⟨t', hleads, hR'⟩ := hstep _ _ t hr ht hR hs
    exact ⟨t', ht.leads hleads, hR'⟩

theorem Reachable.simulated {τ : Type v} {T : System τ} (f : σ → τ) (hinit : ∀ s, S.init s → T.init (f s))
    (hstep : ∀ s t, S.Reachable s → S.step s t → T.Leads (f s) (f t)) {s : σ} (h : S.Reachable s) :
    T.Reachable (f s) := by
  obtain ⟨t, ht, rfl⟩ := h.beside (R := fun s t => t = f s) (fun s hs => ⟨f s, hinit s hs, rfl⟩)
    fun s s' t hr _ ht hs => ⟨f s', ht ▸ hstep s s' hr hs, rfl⟩
  exact ht

/-- **Progress.** When from every state with `I` that has not come to `G` some steps lead to another
one with `I` and a smaller measure, some steps lead to `G`. -/
theorem Reachable.progress {I G : σ → Prop} (μ : σ → Nat)
    (hround : ∀ s, S.Reachable s → I s → G s ∨ ∃ t, S.Leads s t ∧ I t ∧ μ t < μ s) {s : σ}
    (h : S.Reachable s) (hI : I s) : ∃ t, S.Leads s t ∧ I t ∧ G t := by
  induction hn : μ s using Nat.strongRecOn generalizing s with
  | ind n ih =>
    rcases hround s h hI with hG | ⟨t, hst, hIt, hlt⟩
    · exact ⟨s, .refl s, hI, hG⟩
    · obtain ⟨u, htu, hIu, hGu⟩ := ih (μ t) (hn ▸ hlt) (h.leads hst) hIt rfl
      exact ⟨u, hst.trans htu, hIu, hGu⟩

end System

end Lib
