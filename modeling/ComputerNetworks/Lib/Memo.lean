import Mathlib.Logic.Function.Basic
import Mathlib.Data.List.Basic

/-!
# Memo tables

A table that keeps, for each key, the first fresh answer that is worth keeping, and the stores that
stand for such a table.
-/

universe u v w x

namespace Lib.Memo

variable {K : Type u} {V : Type v} {C : Type w}

/-- A call asks for its key. When nothing is known of it, the call has a fresh answer to it. -/
structure Calls (C : Type w) (K : Type u) (V : Type v) where
  key : C → K
  fresh : C → V
  keep : V → Bool

namespace Calls

variable [DecidableEq K] (calls : Calls C K V)

/-- The table behind a call. -/
def serve (table : K → Option V) (c : C) : K → Option V :=
  match table (calls.key c) with
  | some _ => table
  | none =>
    if calls.keep (calls.fresh c) then
      Function.update table (calls.key c) (some (calls.fresh c))
    else table

/-- Whether a call has an answer to `k` that is worth keeping. -/
def settles (k : K) (c : C) : Bool := calls.key c = k && calls.keep (calls.fresh c)

variable {calls}

theorem serve_of_some {table : K → Option V} {c : C} {v : V} (h : table (calls.key c) = some v) :
    calls.serve table c = table := by
  rw [serve, h]

theorem serve_of_none {table : K → Option V} {c : C} (h : table (calls.key c) = none) :
    calls.serve table c = if calls.keep (calls.fresh c) then
      Function.update table (calls.key c) (some (calls.fresh c)) else table := by
  rw [serve, h]

theorem serve_apply (table : K → Option V) (c : C) (k : K) :
    calls.serve table c k =
      (table k).or (if calls.settles k c then some (calls.fresh c) else none) := by
  unfold serve settles
  by_cases hk : calls.key c = k
  · subst hk
    cases h : table (calls.key c) with
    | some v => simp [h]
    | none => cases hkeep : calls.keep (calls.fresh c) <;> simp [h]
  · have hother : Function.update table (calls.key c) (some (calls.fresh c)) k = table k :=
      Function.update_of_ne (Ne.symm hk) _ _
    cases table (calls.key c) with
    | some v => simp [hk]
    | none => cases hkeep : calls.keep (calls.fresh c) <;> simp [hk, hother]

/-- **First answers.** Behind a run, the table has what it had, and else the first answer worth
keeping. -/
theorem serveAll_apply (cs : List C) (table : K → Option V) (k : K) :
    cs.foldl calls.serve table k =
      (table k).or ((cs.find? fun c => calls.settles k c).map calls.fresh) := by
  induction cs generalizing table with
  | nil => simp
  | cons c cs ih =>
    rw [List.foldl_cons, ih, serve_apply, List.find?_cons, Option.or_assoc]
    cases calls.settles k c <;> simp

/-- **Simulation.** A store that stands for the table, and does so behind every call, stands for it
behind every run. -/
theorem simulates {σ : Type x} {handle : σ → C → σ} {R : (K → Option V) → σ → Prop} {P : C → Prop}
    (hstep : ∀ table s c, P c → R table s → R (calls.serve table c) (handle s c)) (cs : List C)
    (hcs : ∀ c ∈ cs, P c) {table : K → Option V} {s : σ} (h : R table s) :
    R (cs.foldl calls.serve table) (cs.foldl handle s) := by
  induction cs generalizing table s with
  | nil => exact h
  | cons c cs ih =>
    exact ih (fun d hd => hcs d (List.mem_cons_of_mem c hd))
      (hstep table s c (hcs c List.mem_cons_self) h)

end Calls

end Lib.Memo
