import ComputerNetworks.Lib.System
import Mathlib.Algebra.BigOperators.Group.Finset.Piecewise

/-!
# Threads on shared state

Threads that take actions one at a time, in any order, and what they add to a tally that they share.
-/

universe u v w x y

namespace Lib

/-- A thread has come to an outcome, or takes an action and goes on with what that gives. -/
inductive Thread (α : Type u) (ρ : α → Type v) (ο : Type w) where
  | done (o : ο)
  | act (a : α) (next : ρ a → Thread α ρ ο)

namespace Thread

variable {α : Type u} {ρ : α → Type v} {ο : Type w}

/-- On each way to an outcome, the weights of the actions add up to what the outcome is worth, when
`m` of it is spent already. -/
def Spends {μ : Type x} [Add μ] (weight : α → μ) (worth : ο → μ) : μ → Thread α ρ ο → Prop
  | m, .done o => m = worth o
  | m, .act a next => ∀ r, Spends weight worth (m + weight a) (next r)

/-- Alone, the thread comes from one shared state to an outcome and another shared state. -/
inductive Runs {σ : Type x} (exec : (a : α) → σ → ρ a → σ → Prop) :
    Thread α ρ ο → σ → ο → σ → Prop where
  | done (o : ο) (g : σ) : Runs exec (.done o) g o g
  | act {a : α} {next : ρ a → Thread α ρ ο} {g g' g'' : σ} {o : ο} (r : ρ a) :
      exec a g r g' → Runs exec (next r) g' o g'' → Runs exec (.act a next) g o g''

end Thread

structure Threads (ι : Type y) (σ : Type x) (α : Type u) (ρ : α → Type v) (ο : Type w) where
  shared : σ
  thread : ι → Thread α ρ ο

namespace Threads

variable {ι : Type y} [DecidableEq ι] {σ : Type x} {α : Type u} {ρ : α → Type v} {ο : Type w}

/-- The state once a thread has gone on. -/
def go (s : Threads ι σ α ρ ο) (i : ι) (shared : σ) (thread : Thread α ρ ο) :
    Threads ι σ α ρ ο :=
  { shared, thread := Function.update s.thread i thread }

@[simp] theorem go_shared (s : Threads ι σ α ρ ο) (i : ι) (shared : σ) (thread : Thread α ρ ο) :
    (s.go i shared thread).shared = shared := rfl

@[simp] theorem go_self (s : Threads ι σ α ρ ο) (i : ι) (shared : σ) (thread : Thread α ρ ο) :
    (s.go i shared thread).thread i = thread := by
  simp [go]

theorem go_of_ne (s : Threads ι σ α ρ ο) {i j : ι} (h : j ≠ i) (shared : σ)
    (thread : Thread α ρ ο) : (s.go i shared thread).thread j = s.thread j := by
  simp [go, h]

@[simp] theorem go_go (s : Threads ι σ α ρ ο) (i : ι) (g g' : σ) (t t' : Thread α ρ ο) :
    (s.go i g t).go i g' t' = s.go i g' t' := by
  simp [go]

/-- Every thread starts as told, and `exec` says what an action gives and makes of the shared
state. -/
def interleaving (start : ι → Thread α ρ ο) (init : σ → Prop)
    (exec : (a : α) → σ → ρ a → σ → Prop) : System (Threads ι σ α ρ ο) where
  init s := init s.shared ∧ s.thread = start
  step s t := ∃ i a next r shared, s.thread i = .act a next ∧ exec a s.shared r shared ∧
    t = s.go i shared (next r)

variable {start : ι → Thread α ρ ο} {init : σ → Prop} {exec : (a : α) → σ → ρ a → σ → Prop}
  {s t : Threads ι σ α ρ ο}

/-- A thread that nothing comes between, when a condition asks nothing of its steps. -/
theorem leads_within_of_runs {R : Threads ι σ α ρ ο → Threads ι σ α ρ ο → Prop} {thread : Thread α ρ ο}
    {g g' : σ} {o : ο} (h : thread.Runs exec g o g') (s : Threads ι σ α ρ ο) {i : ι}
    (hR : ∀ g t g' t', R (s.go i g t) (s.go i g' t')) (hthread : s.thread i = thread)
    (hshared : s.shared = g) :
    ((interleaving start init exec).within R).Leads s (s.go i g' (.done o)) := by
  induction h generalizing s with
  | done o g =>
    have hsame : s.go i g (.done o) = s := by
      rw [go, ← hthread, ← hshared, Function.update_eq_self]
    rw [hsame]
    exact .refl s
  | @act a next g g₁ g₂ o r hexec _ ih =>
    have hsame : s.go i s.shared (s.thread i) = s := by
      rw [go, Function.update_eq_self]
    have hstep : ((interleaving start init exec).within R).step s (s.go i g₁ (next r)) := by
      refine ⟨⟨i, a, next, r, g₁, hthread, hshared ▸ hexec, rfl⟩, ?_⟩
      have hmoves := hR s.shared (s.thread i) g₁ (next r)
      rwa [hsame] at hmoves
    have hrest := ih (s.go i g₁ (next r)) (fun g t g' t' => by rw [go_go, go_go]; exact hR g t g' t')
      (go_self s i g₁ (next r)) rfl
    rw [go_go] at hrest
    exact (System.Leads.of_step hstep).trans hrest

theorem leads_of_runs {thread : Thread α ρ ο} {g g' : σ} {o : ο} (h : thread.Runs exec g o g')
    (s : Threads ι σ α ρ ο) {i : ι} (hthread : s.thread i = thread) (hshared : s.shared = g) :
    (interleaving start init exec).Leads s (s.go i g' (.done o)) :=
  (leads_within_of_runs (R := fun _ _ => True) h s (fun _ _ _ _ => trivial) hthread hshared).of_within

/-! ## Tallies -/

section Tally

variable {μ : Type x} [AddCommMonoid μ] {weight : α → μ} {worth : ο → μ} {tally : σ → μ}

theorem sum_update_add [Fintype ι] (f : ι → μ) (i : ι) (m : μ) :
    ∑ j, Function.update f i (f i + m) j = ∑ j, f j + m := by
  rw [Finset.sum_update_of_mem (Finset.mem_univ i), add_right_comm,
    ← Finset.sum_eq_add_sum_sdiff_singleton_of_mem (Finset.mem_univ i) f]

/-- What the threads have spent is what the tally has. -/
def Accounted [Fintype ι] (weight : α → μ) (worth : ο → μ) (tally : σ → μ)
    (s : Threads ι σ α ρ ο) : Prop :=
  ∃ spent : ι → μ, tally s.shared = ∑ i, spent i ∧ ∀ i, (s.thread i).Spends weight worth (spent i)

theorem Accounted.step [Fintype ι]
    (hexec : ∀ a g r g', exec a g r g' → tally g' = tally g + weight a)
    (h : s.Accounted weight worth tally) (hst : (interleaving start init exec).step s t) :
    t.Accounted weight worth tally := by
  obtain ⟨spent, htally, hspends⟩ := h
  obtain ⟨i, a, next, r, shared, hi, hact, rfl⟩ := hst
  refine ⟨Function.update spent i (spent i + weight a), ?_, fun j => ?_⟩
  · rw [go_shared, hexec a s.shared r shared hact, htally, sum_update_add]
  · by_cases hj : j = i
    · subst hj
      have hi' := hspends j
      rw [hi] at hi'
      rw [go_self, Function.update_self]
      exact hi' r
    · rw [s.go_of_ne hj, Function.update_of_ne hj]
      exact hspends j

/-- **Tallies.** When all threads have come to an outcome, the tally is what these are worth. -/
theorem tally_of_done [Fintype ι] (tally : σ → μ)
    (hexec : ∀ a g r g', exec a g r g' → tally g' = tally g + weight a)
    (hstart : ∀ i, (start i).Spends weight worth 0) (hinit : ∀ g, init g → tally g = 0)
    (h : (interleaving start init exec).Reachable s) {o : ι → ο}
    (hdone : ∀ i, s.thread i = .done (o i)) : tally s.shared = ∑ i, worth (o i) := by
  have hacc : s.Accounted weight worth tally := by
    refine h.invariant (J := fun _ => True) (fun _ _ => trivial) ?_ fun _ _ _ _ hs hst =>
      hs.step hexec hst
    rintro s ⟨h0, hthread⟩
    exact ⟨0, by simp [hinit _ h0], fun i => hthread ▸ hstart i⟩
  obtain ⟨spent, htally, hspends⟩ := hacc
  rw [htally]
  refine Finset.sum_congr rfl fun i _ => ?_
  have hi := hspends i
  rw [hdone i] at hi
  exact hi

end Tally

end Threads

end Lib
