import ComputerNetworks.Lib.Threads

/-!
# Threads that keep apart

Threads of which each acts on a part of the shared state of its own. What such a thread comes to, in
whatever company, it comes to alone.
-/

universe u v w x y

namespace Lib

variable {α : Type u} {ρ : α → Type v} {ο : Type w} {σ : Type x}

/-- All actions that the thread can come to are of this kind. -/
def Thread.Takes (exec : (a : α) → σ → ρ a → σ → Prop) (kind : α → Prop) : Thread α ρ ο → Prop
  | .done _ => True
  | .act a next => kind a ∧ ∀ g r g', exec a g r g' → Takes exec kind (next r)

namespace Thread

variable {exec : (a : α) → σ → ρ a → σ → Prop} {g g' : σ} {o : ο}

theorem runs_done {o' : ο} : (done o : Thread α ρ ο).Runs exec g o' g' ↔ o' = o ∧ g' = g := by
  constructor
  · intro h
    cases h
    exact ⟨rfl, rfl⟩
  · rintro ⟨rfl, rfl⟩
    exact .done o' g'

theorem runs_act {a : α} {next : ρ a → Thread α ρ ο} :
    (act a next).Runs exec g o g' ↔ ∃ r h, exec a g r h ∧ (next r).Runs exec h o g' := by
  constructor
  · intro h
    cases h with
    | act r hexec hrest => exact ⟨r, _, hexec, hrest⟩
  · rintro ⟨r, h, hexec, hrest⟩
    exact .act r hexec hrest

end Thread

namespace Threads

variable {ι : Type y} [DecidableEq ι]

/-- `mine i` are the actions of the thread `i`, and `same i` says of two shared states that they are the
same in its part. -/
structure Apart (start : ι → Thread α ρ ο) (exec : (a : α) → σ → ρ a → σ → Prop)
    (mine : ι → α → Prop) (same : ι → σ → σ → Prop) : Prop where
  takes : ∀ i, (start i).Takes exec (mine i)
  refl : ∀ i g, same i g g
  /-- An action leaves the parts of others as they are. -/
  frame : ∀ {i j a g r g' h}, j ≠ i → mine i a → exec a g r g' → same j g h → same j g' h
  /-- What it gives and does to its own part depends on that part only. -/
  own : ∀ {i a g r g' h}, mine i a → exec a g r g' → same i g h → ∃ h', exec a h r h' ∧ same i g' h'

variable {start : ι → Thread α ρ ο} {init : σ → Prop} {exec : (a : α) → σ → ρ a → σ → Prop}
  {mine : ι → α → Prop} {same : ι → σ → σ → Prop} {s t : Threads ι σ α ρ ο}

/-- Where a run stands that started at `g₀`. Each thread has come as far alone, in a state with the same
part: whatever it would come to from there, it comes to from the start. -/
structure Standing (start : ι → Thread α ρ ο) (exec : (a : α) → σ → ρ a → σ → Prop)
    (mine : ι → α → Prop) (same : ι → σ → σ → Prop) (g₀ : σ) (s : Threads ι σ α ρ ο) : Prop where
  takes : ∀ i, (s.thread i).Takes exec (mine i)
  alone : ∀ i, ∃ h, same i s.shared h ∧
    ∀ o g, (s.thread i).Runs exec h o g → (start i).Runs exec g₀ o g
  /-- What all actions keep is kept. -/
  kept : ∀ K : σ → Prop, K g₀ → (∀ i a g r g', mine i a → exec a g r g' → K g → K g') → K s.shared

theorem Standing.step (H : Apart start exec mine same) {g₀ : σ} (h : Standing start exec mine same g₀ s)
    (hst : (interleaving start init exec).step s t) : Standing start exec mine same g₀ t := by
  obtain ⟨i, a, next, r, shared, hi, hexec, rfl⟩ := hst
  have htakes := h.takes i
  rw [hi] at htakes
  obtain ⟨hmine, hnext⟩ := htakes
  refine ⟨fun j => ?_, fun j => ?_, fun K hK hkeep => hkeep i a _ r _ hmine hexec (h.kept K hK hkeep)⟩
  · by_cases hj : j = i
    · subst hj
      rw [go_self]
      exact hnext _ r _ hexec
    · rw [s.go_of_ne hj]
      exact h.takes j
  · obtain ⟨g, hsame, halone⟩ := h.alone j
    by_cases hj : j = i
    · subst hj
      obtain ⟨g', hexec', hsame'⟩ := H.own hmine hexec hsame
      rw [go_self]
      refine ⟨g', hsame', fun o g'' hruns => halone o g'' ?_⟩
      rw [hi]
      exact .act r hexec' hruns
    · rw [s.go_of_ne hj]
      exact ⟨g, H.frame hj hmine hexec hsame, halone⟩

theorem standing_of_reachable (H : Apart start exec mine same)
    (h : (interleaving start init exec).Reachable s) :
    ∃ g₀, init g₀ ∧ Standing start exec mine same g₀ s := by
  induction h with
  | @init s h0 =>
    obtain ⟨hinit, hthread⟩ := h0
    refine ⟨s.shared, hinit, fun i => ?_, fun i => ⟨s.shared, H.refl i _, fun o g hruns => ?_⟩,
      fun _ hK _ => hK⟩
    · rw [hthread]
      exact H.takes i
    · rw [hthread] at hruns
      exact hruns
  | step _ hst ih =>
    obtain ⟨g₀, hinit, hstanding⟩ := ih
    exact ⟨g₀, hinit, hstanding.step H hst⟩

omit [DecidableEq ι] in
/-- **Alone.** A thread that is done has come to what it comes to alone, and so has its part. -/
theorem Standing.runs {g₀ : σ} (h : Standing start exec mine same g₀ s) {i : ι} {o : ο}
    (hdone : s.thread i = .done o) : ∃ g, (start i).Runs exec g₀ o g ∧ same i s.shared g := by
  obtain ⟨g, hsame, halone⟩ := h.alone i
  refine ⟨g, halone o g ?_, hsame⟩
  rw [hdone]
  exact .done o g

end Threads

end Lib
