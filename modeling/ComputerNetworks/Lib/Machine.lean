import Mathlib.Data.List.Induction

/-!
# Machines that answer

A machine takes one input after the other, and puts something out on each. What can be left out of
its inputs so that nobody notices.
-/

universe u v w

namespace Lib

structure Machine (σ : Type u) (ι : Type v) (ο : Type w) where
  step : σ → ι → σ × List ο

namespace Machine

variable {σ : Type u} {ι : Type v} {ο : Type w} (M : Machine σ ι ο)

/-- The state behind some inputs, and all that was put out on them. -/
def run (s : σ) : List ι → σ × List ο
  | [] => (s, [])
  | i :: inputs => ((run (M.step s i).1 inputs).1, (M.step s i).2 ++ (run (M.step s i).1 inputs).2)

theorem run_append (s : σ) (front back : List ι) :
    M.run s (front ++ back) =
      ((M.run (M.run s front).1 back).1,
        (M.run s front).2 ++ (M.run (M.run s front).1 back).2) := by
  induction front generalizing s with
  | nil => rfl
  | cons i front ih => rw [List.cons_append, run, ih, run, List.append_assoc]

theorem run_snoc (s : σ) (front : List ι) (i : ι) :
    M.run s (front ++ [i]) =
      ((M.step (M.run s front).1 i).1, (M.run s front).2 ++ (M.step (M.run s front).1 i).2) := by
  rw [run_append, run, run, List.append_nil]

/-- What every step keeps holds behind every input. -/
theorem run_invariant {I : σ → Prop} (hstep : ∀ s i, I s → I (M.step s i).1) {s : σ} (hs : I s)
    (inputs : List ι) : I (M.run s inputs).1 := by
  induction inputs generalizing s with
  | nil => exact hs
  | cons i inputs ih => exact ih (hstep s i hs)

/-- One more input behind a run. -/
def after (s : σ × List ο) (i : ι) : σ × List ο := ((M.step s.1 i).1, s.2 ++ (M.step s.1 i).2)

theorem run_after (s : σ) (front : List ι) (i : ι) : M.run s (front ++ [i]) = M.after (M.run s front) i :=
  M.run_snoc s front i

/-- What the first machine puts out is taken by the second one. -/
def andThen {τ π : Type*} (M : Machine σ ι ο) (N : Machine τ ο π) : Machine (σ × τ) ι π where
  step s i :=
    (((M.step s.1 i).1, (N.run s.2 (M.step s.1 i).2).1), (N.run s.2 (M.step s.1 i).2).2)

theorem run_andThen {τ π : Type*} (N : Machine τ ο π) (s : σ) (t : τ) (inputs : List ι) :
    (M.andThen N).run (s, t) inputs =
      (((M.run s inputs).1, (N.run t (M.run s inputs).2).1), (N.run t (M.run s inputs).2).2) := by
  induction inputs generalizing s t with
  | nil => rfl
  | cons i inputs ih =>
    have hstep : (M.andThen N).step (s, t) i = (((M.step s i).1, (N.run t (M.step s i).2).1),
        (N.run t (M.step s i).2).2) := rfl
    rw [run, hstep, ih, run, N.run_append]

/-! ## What was put out -/

/-- A property of the state and of all that was put out holds behind every front of the inputs, if each
step keeps it that is taken on them. -/
theorem run_induction {P : σ → List ο → Prop} {s : σ} {inputs : List ι} (hnil : P s [])
    (hstep : ∀ front i, front ++ [i] <+: inputs → P (M.run s front).1 (M.run s front).2 →
      P (M.step (M.run s front).1 i).1 ((M.run s front).2 ++ (M.step (M.run s front).1 i).2)) :
    ∀ front, front <+: inputs → P (M.run s front).1 (M.run s front).2 := by
  intro front hle
  induction front using List.reverseRecOn with
  | nil => exact hnil
  | append_singleton front i ih =>
    rw [run_snoc]
    exact hstep front i hle (ih ((List.prefix_append front [i]).trans hle))

theorem run_split_iff {s : σ} {inputs : List ι} {before : List ο} {o : ο} :
    (∃ behind, (M.run s inputs).2 = before ++ o :: behind) ↔
      ∃ front i part rest, front ++ [i] <+: inputs ∧
        (M.step (M.run s front).1 i).2 = part ++ o :: rest ∧ before = (M.run s front).2 ++ part := by
  induction inputs using List.reverseRecOn with
  | nil => simp [run]
  | append_singleton inputs j ih =>
    constructor
    · rintro ⟨behind, hout⟩
      rw [run_snoc] at hout
      rcases List.append_eq_append_iff.mp hout with ⟨part, rfl, hnew⟩ | ⟨part, hold, hnew⟩
      · exact ⟨inputs, j, part, behind, List.prefix_refl _, hnew, rfl⟩
      · cases part with
        | nil =>
          refine ⟨inputs, j, [], behind, List.prefix_refl _, hnew.symm, ?_⟩
          rw [hold, List.append_nil, List.append_nil]
        | cons o' part =>
          obtain ⟨rfl, -⟩ := List.cons.inj hnew
          obtain ⟨front, i, rest⟩ := ih.mp ⟨part, hold⟩
          exact ⟨front, i, rest.imp fun _ => Exists.imp fun _ => And.imp_left
            fun hle => hle.trans (List.prefix_append inputs [j])⟩
    · rintro ⟨front, i, part, rest, hle, hnew, rfl⟩
      rcases List.prefix_concat_iff.mp hle with heq | hle
      · obtain ⟨rfl, hi⟩ := List.append_inj' heq rfl
        obtain rfl := List.singleton_inj.mp hi
        exact ⟨rest, by rw [run_snoc, hnew, List.append_assoc]⟩
      · obtain ⟨behind, hout⟩ := ih.mpr ⟨front, i, part, rest, hle, hnew, rfl⟩
        exact ⟨behind ++ (M.step (M.run s inputs).1 j).2, by rw [run_snoc, hout]; simp⟩

theorem mem_run_iff {s : σ} {inputs : List ι} {o : ο} :
    o ∈ (M.run s inputs).2 ↔
      ∃ front i, front ++ [i] <+: inputs ∧ o ∈ (M.step (M.run s front).1 i).2 := by
  rw [List.mem_iff_append]
  simp only [run_split_iff]
  constructor
  · rintro ⟨_, front, i, part, rest, hle, hnew, rfl⟩
    exact ⟨front, i, hle, List.mem_iff_append.mpr ⟨part, rest, hnew⟩⟩
  · rintro ⟨front, i, hle, ho⟩
    obtain ⟨part, rest, hnew⟩ := List.mem_iff_append.mp ho
    exact ⟨_, front, i, part, rest, hle, hnew, rfl⟩

/-! ## Inputs that are left out -/

/-- The input changes nothing and brings nothing out. -/
def Idle (s : σ) (i : ι) : Prop := M.step s i = (s, [])

/-- Each input that is not kept is idle where it comes. -/
def Silent (keep : ι → Bool) (s : σ) (inputs : List ι) : Prop :=
  ∀ front i, front ++ [i] <+: inputs → keep i = false → M.Idle (M.run s front).1 i

variable {M} {keep : ι → Bool} {s : σ}

theorem Silent.of_prefix {front inputs : List ι} (h : M.Silent keep s inputs)
    (hle : front <+: inputs) : M.Silent keep s front :=
  fun ys i hys hi => h ys i (hys.trans hle) hi

theorem Silent.run_filter {inputs : List ι} (h : M.Silent keep s inputs) :
    M.run s (inputs.filter keep) = M.run s inputs := by
  induction inputs using List.reverseRecOn with
  | nil => rfl
  | append_singleton front i ih =>
    have ih := ih (h.of_prefix (List.prefix_append front [i]))
    rw [List.filter_append, run_snoc]
    cases hi : keep i with
    | true => rw [List.filter_cons_of_pos hi, List.filter_nil, run_snoc, ih]
    | false =>
      have hidle : M.Idle (M.run s front).1 i := h front i (List.prefix_refl _) hi
      rw [List.filter_cons_of_neg (Bool.eq_false_iff.mp hi), List.filter_nil, List.append_nil, ih,
        hidle, List.append_nil]

/-- **Leaving out.** Where an input that is not idle brings something out, all inputs that are not kept
can be left out at every point exactly when each of them is idle. -/
theorem silent_iff {I : σ → Prop} (hkeeps : ∀ s i, I s → I (M.step s i).1)
    (hloud : ∀ s i, I s → ¬M.Idle s i → (M.step s i).2 ≠ []) (hs : I s) (inputs : List ι) :
    M.Silent keep s inputs ↔
      ∀ front, front <+: inputs → (M.run s (front.filter keep)).2 = (M.run s front).2 := by
  refine ⟨fun h front hle => by rw [(h.of_prefix hle).run_filter], fun h front i hle hi => ?_⟩
  by_contra hidle
  have hfront := h front ((List.prefix_append front [i]).trans hle)
  have hall := h (front ++ [i]) hle
  rw [List.filter_append, List.filter_cons_of_neg (Bool.eq_false_iff.mp hi), List.filter_nil,
    List.append_nil, hfront, run_snoc] at hall
  exact hloud _ i (M.run_invariant hkeeps hs front) hidle (List.self_eq_append_right.mp hall)

end Machine

end Lib
