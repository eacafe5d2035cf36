import Mathlib.Data.List.TakeWhile
import Mathlib.Tactic.Common

/-!
# Cutting a line into fields

`find` of one character and the two parts around it, `stream >> word`, and white space taken off
both ends of a field.
-/

universe u

namespace Lib.Fields

variable {α : Type u}

theorem forall_of_all {p : α → Bool} {text : List α} (h : (text.all fun c => !p c) = true) :
    ∀ c ∈ text, p c = false := by
  intro c hc
  simpa using List.all_eq_true.mp h c hc

/-! ## At a mark -/

section Cut

variable [DecidableEq α]

/-- What stands before the first `c`, and what stands behind it. -/
def cut (c : α) : List α → Option (List α × List α)
  | [] => none
  | d :: rest => if d = c then some ([], rest) else (cut c rest).map fun p => (d :: p.1, p.2)

theorem cut_append (c : α) {pre : List α} (h : c ∉ pre) (post : List α) :
    cut c (pre ++ c :: post) = some (pre, post) := by
  induction pre with
  | nil => rw [List.nil_append, cut, if_pos rfl]
  | cons d pre ih =>
    rw [List.mem_cons, not_or] at h
    rw [List.cons_append, cut, if_neg (Ne.symm h.1), ih h.2]
    rfl

theorem cut_eq_none_iff {c : α} {text : List α} : cut c text = none ↔ c ∉ text := by
  induction text with
  | nil => simp [cut]
  | cons d text ih =>
    rw [cut, List.mem_cons, not_or]
    split
    · rename_i hd
      simp [hd]
    · rename_i hd
      simp [ih, Ne.symm hd]

theorem cut_eq_some {c : α} {text pre post : List α} (h : cut c text = some (pre, post)) :
    text = pre ++ c :: post ∧ c ∉ pre := by
  induction text generalizing pre with
  | nil => cases h
  | cons d text ih =>
    rw [cut] at h
    split at h
    · rename_i hd
      obtain ⟨rfl, rfl⟩ : [] = pre ∧ text = post := by simpa using h
      exact ⟨by rw [hd]; rfl, by simp⟩
    · rename_i hd
      cases hc : cut c text with
      | none => simp [hc] at h
      | some parts =>
        obtain ⟨pre', post'⟩ := parts
        obtain ⟨rfl, rfl⟩ : d :: pre' = pre ∧ post' = post := by simpa [hc] using h
        obtain ⟨rfl, hpre⟩ := ih hc
        exact ⟨rfl, by simp [Ne.symm hd, hpre]⟩

end Cut

/-! ## Words -/

variable (p : α → Bool)

/-- The next word, and what is behind it: `p` says which characters stand between words. -/
def word (text : List α) : List α × List α :=
  ((text.dropWhile p).takeWhile fun c => !p c, (text.dropWhile p).dropWhile fun c => !p c)

variable {p}

theorem mem_word {text : List α} {c : α} (h : c ∈ (word p text).1) : p c = false := by
  simpa using List.mem_takeWhile_imp h

theorem dropWhile_of_head {text : List α} (h : ∀ c ∈ text.head?, p c = false) :
    text.dropWhile p = text := by
  cases text with
  | nil => rfl
  | cons c rest =>
    have hc : p c = false := h c rfl
    rw [List.dropWhile_cons, hc]
    rfl

theorem span_append {front rest : List α} (hfront : ∀ c ∈ front, p c = true)
    (hrest : ∀ c ∈ rest.head?, p c = false) :
    (front ++ rest).takeWhile p = front ∧ (front ++ rest).dropWhile p = rest := by
  have hend : rest.takeWhile p = [] ∧ rest.dropWhile p = rest := by
    cases rest with
    | nil => exact ⟨rfl, rfl⟩
    | cons c rest => simp [hrest c rfl]
  rw [List.takeWhile_append_of_pos hfront, List.dropWhile_append_of_pos hfront, hend.1, hend.2]
  exact ⟨List.append_nil front, rfl⟩

theorem takeWhile_append_of_head (front : List α) {rest : List α} (hrest : ∀ c ∈ rest.head?, p c = false) :
    (front ++ rest).takeWhile p = front.takeWhile p := by
  have hend : rest.takeWhile p = [] := by
    cases rest with
    | nil => rfl
    | cons c rest => simp [hrest c rfl]
  rw [List.takeWhile_append, hend, List.append_nil]
  split
  · rename_i hlength
    exact (List.IsPrefix.eq_of_length (List.takeWhile_prefix p) hlength).symm
  · rfl

theorem word_append {w rest : List α} (hne : w ≠ []) (hw : ∀ c ∈ w, p c = false)
    (hrest : ∀ c ∈ rest.head?, p c = true) : word p (w ++ rest) = (w, rest) := by
  have hhead : (w ++ rest).dropWhile p = w ++ rest := by
    apply dropWhile_of_head
    cases w with
    | nil => exact absurd rfl hne
    | cons c w =>
      rintro d ⟨⟩
      exact hw c (by simp)
  have hfront : ∀ c ∈ w, (!p c) = true := by simpa using hw
  have hback : ∀ c ∈ rest.head?, (!p c) = false := by simpa using hrest
  obtain ⟨htake, hdrop⟩ := span_append (p := fun c => !p c) hfront hback
  rw [word, hhead, htake, hdrop]

theorem word_cons {c : α} (h : p c = true) (text : List α) : word p (c :: text) = word p text := by
  rw [word, List.dropWhile_cons, if_pos h]
  rfl

/-! ## Trimming -/

variable (p) in
/-- The text without the characters of `p` at its two ends. -/
def trim (text : List α) : List α := ((text.dropWhile p).reverse.dropWhile p).reverse

structure Trimmed (p : α → Bool) (text : List α) : Prop where
  head : ∀ c ∈ text.head?, p c = false
  last : ∀ c ∈ text.getLast?, p c = false

theorem head_dropWhile (text : List α) : ∀ c ∈ (text.dropWhile p).head?, p c = false := by
  intro c hc
  have := List.head?_dropWhile_not p text
  rw [Option.mem_def.mp hc] at this
  simpa using this

theorem trim_of_trimmed {text : List α} (h : Trimmed p text) : trim p text = text := by
  rw [trim, dropWhile_of_head h.head, dropWhile_of_head, List.reverse_reverse]
  rw [List.head?_reverse]
  exact h.last

theorem trimmed_trim (text : List α) : Trimmed p (trim p text) where
  head := by
    -- What is left in front is what is in front of the text without its beginning.
    intro c hc
    have hpre : trim p text <+: text.dropWhile p := by
      rw [trim, ← List.reverse_suffix, List.reverse_reverse]
      exact List.dropWhile_suffix p
    obtain ⟨rest, hrest⟩ := hpre
    apply head_dropWhile text c
    rw [← hrest, List.head?_append, Option.mem_def.mp hc]
    rfl
  last := by
    intro c hc
    rw [trim, List.getLast?_reverse] at hc
    exact head_dropWhile _ c hc

theorem trim_cons {c : α} (h : p c = true) (text : List α) : trim p (c :: text) = trim p text := by
  rw [trim, List.dropWhile_cons, if_pos h]
  rfl

theorem mem_of_mem_trim {text : List α} {c : α} (h : c ∈ trim p text) : c ∈ text := by
  rw [trim, List.mem_reverse] at h
  have h := List.mem_reverse.mp ((List.dropWhile_suffix p).subset h)
  exact (List.dropWhile_suffix p).subset h

end Lib.Fields
