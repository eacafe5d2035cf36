import ComputerNetworks.Lib.Bytes
import Mathlib.Data.List.Forall2
import Mathlib.Data.List.Induction
import Mathlib.Tactic.Common

/-!
# Flags with values

The loop of a program over its arguments: flags, each with a value behind it, as far as they go.
-/

namespace Lib.Flags

universe u v w

variable {F : Type u} {V : Type v} {S : Type w}

/-- `isOption` says where the loop goes on, and `value` reads what stands behind a flag. -/
structure Table (F : Type u) (V : Type v) where
  isOption : Bytes → Bool
  flagOf : Bytes → Option F
  value : F → Bytes → Option V

inductive Refusal where
  | unknown (arg : Bytes)
  | missing (arg : Bytes)
  | badValue (arg text : Bytes)
  deriving DecidableEq, Repr

variable (T : Table F V) (set : S → F → V → S)

/-- The settings, and the arguments at which the loop stops. -/
def read (s : S) : List Bytes → Except Refusal (S × List Bytes)
  | [] => .ok (s, [])
  | arg :: rest =>
    if T.isOption arg then
      match T.flagOf arg, rest with
      | none, _ => .error (.unknown arg)
      | some _, [] => .error (.missing arg)
      | some f, text :: rest =>
        match T.value f text with
        | none => .error (.badValue arg text)
        | some v => read (set s f v) rest
    else .ok (s, arg :: rest)

/-- A flag and the text behind it, and what they set. -/
structure Sets (pair : Bytes × Bytes) (given : F × V) : Prop where
  isOption : T.isOption pair.1 = true
  flag : T.flagOf pair.1 = some given.1
  value : T.value given.1 pair.2 = some given.2

/-- The arguments are pairs that set what is given, up to one that is no option. -/
def Reads (args : List Bytes) (given : List (F × V)) (rest : List Bytes) : Prop :=
  ∃ pairs : List (Bytes × Bytes), args = pairs.flatMap (fun pair => [pair.1, pair.2]) ++ rest ∧
    List.Forall₂ (Sets T) pairs given ∧ ∀ arg ∈ rest.head?, T.isOption arg = false

def settings (s : S) (given : List (F × V)) : S := given.foldl (fun s g => set s g.1 g.2) s

variable {T set}

theorem Reads.nil (rest : List Bytes) (h : ∀ arg ∈ rest.head?, T.isOption arg = false) :
    Reads T rest [] rest := ⟨[], rfl, .nil, h⟩

theorem Reads.cons {arg text : Bytes} {given : F × V} {givens : List (F × V)} {args rest : List Bytes}
    (h : Sets T (arg, text) given) (hargs : Reads T args givens rest) :
    Reads T (arg :: text :: args) (given :: givens) rest := by
  obtain ⟨pairs, rfl, hpairs, hrest⟩ := hargs
  exact ⟨(arg, text) :: pairs, rfl, .cons h hpairs, hrest⟩

theorem read_stop {s : S} {rest : List Bytes} (h : ∀ arg ∈ rest.head?, T.isOption arg = false) :
    read T set s rest = .ok (s, rest) := by
  cases rest with
  | nil => rfl
  | cons arg rest =>
    have harg : ¬T.isOption arg = true := Bool.eq_false_iff.mp (h arg rfl)
    unfold read
    rw [if_neg harg]

theorem read_cons {s : S} {arg text : Bytes} {given : F × V} {args : List Bytes}
    (h : Sets T (arg, text) given) :
    read T set s (arg :: text :: args) = read T set (set s given.1 given.2) args := by
  have hflag : T.flagOf arg = some given.1 := h.flag
  have hvalue : T.value given.1 text = some given.2 := h.value
  have hoption : T.isOption arg = true := h.isOption
  conv_lhs => unfold read
  simp only [hoption, hflag, hvalue, if_true]

theorem read_eq_ok_iff {s t : S} {args rest : List Bytes} :
    read T set s args = .ok (t, rest) ↔ ∃ given, Reads T args given rest ∧ t = settings set s given := by
  constructor
  · intro h
    fun_induction read T set s args with
    | case1 s =>
      cases h
      exact ⟨[], .nil [] (by simp), rfl⟩
    | case2 => cases h
    | case3 => cases h
    | case4 => cases h
    | case5 s arg hoption f text args hflag v hvalue ih =>
      obtain ⟨given, hreads, rfl⟩ := ih h
      exact ⟨(f, v) :: given, .cons ⟨hoption, hflag, hvalue⟩ hreads, rfl⟩
    | case6 s arg args hoption =>
      cases h
      exact ⟨[], .nil _ (by simpa using hoption), rfl⟩
  · rintro ⟨given, ⟨pairs, rfl, hpairs, hrest⟩, rfl⟩
    induction hpairs generalizing s with
    | nil => exact read_stop hrest
    | cons hsets _ ih =>
      exact (read_cons hsets).trans ih

/-! ## The last one wins -/

section Last

variable [DecidableEq F]

/-- What was given last for a flag. -/
def last (given : List (F × V)) (f : F) : Option V := ((given.filter fun g => g.1 = f).getLast?).map (·.2)

theorem last_snoc (given : List (F × V)) (g : F × V) (f : F) :
    last (given ++ [g]) f = if g.1 = f then some g.2 else last given f := by
  unfold last
  rw [List.filter_append]
  split
  · rename_i h
    simp [h]
  · rename_i h
    simp [h]

theorem settings_last {X : Type*} {π : S → X} {f : F} {x : V → X}
    (hset : ∀ s g v, π (set s g v) = if g = f then x v else π s) (s : S) (given : List (F × V)) :
    π (settings set s given) = ((last given f).map x).getD (π s) := by
  induction given using List.reverseRecOn with
  | nil => rfl
  | append_singleton given g ih =>
    have hsnoc : settings set s (given ++ [g]) = set (settings set s given) g.1 g.2 := by
      simp [settings, List.foldl_append]
    rw [hsnoc, hset, last_snoc]
    split
    · rfl
    · exact ih

end Last

end Lib.Flags
