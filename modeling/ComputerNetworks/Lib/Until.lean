import Mathlib.Data.List.Infix

/-!
# Reading up to a mark

A reader that takes one character at a time and stops when what it has read ends in a mark, such as
the CRLF of a line or the empty line behind a header.
-/

universe u v w

namespace Lib

variable {α : Type u}

/-- `piece` ends in the mark, for the first time at its end. -/
structure Closes (mark piece : List α) : Prop where
  ends : mark <:+ piece
  fresh : ¬ mark <:+: piece.dropLast

namespace Closes

variable {mark piece : List α}

theorem ne_nil (h : Closes mark piece) (hm : mark ≠ []) : piece ≠ [] := by
  rintro rfl
  exact hm (List.suffix_nil.mp h.ends)

theorem not_suffix (h : Closes mark piece) {line rest : List α} {c : α}
    (hp : piece = line ++ c :: rest) : ¬ mark <:+ line := by
  intro hs
  apply h.fresh
  rw [hp, List.dropLast_append_cons]
  exact hs.isInfix.trans (List.prefix_append _ _).isInfix

end Closes

section Rule

variable [DecidableEq α] {β : Type v} {σ : Type w}

/-- The rule of such a reader: `f` has read `line`, and `feed c` puts `c` in front of what is still
to be read. On a piece that closes, it comes to `g`. -/
theorem reader_closes {mark : List α} (feed : α → σ → σ) {f g : List α → σ → β}
    (hf : ∀ line c rest, f line (feed c rest) =
      if mark <:+ line ++ [c] then g (line ++ [c]) rest else f (line ++ [c]) rest)
    {piece : List α} (hne : piece ≠ []) (h : Closes mark piece) (rest : σ) :
    f [] (piece.foldr feed rest) = g piece rest := by
  -- `line` is what has been read of the piece, and `todo` what has not.
  have run : ∀ todo line, todo ≠ [] → line ++ todo = piece →
      f line (todo.foldr feed rest) = g piece rest := by
    intro todo
    induction todo with
    | nil => intro _ hne; exact absurd rfl hne
    | cons c todo ih =>
      intro line _ hp
      rw [List.foldr_cons, hf]
      cases todo with
      | nil => rw [if_pos (hp ▸ h.ends), hp, List.foldr_nil]
      | cons d todo =>
        have hsplit : piece = (line ++ [c]) ++ d :: todo := by rw [← hp]; simp
        rw [if_neg (h.not_suffix hsplit)]
        exact ih (line ++ [c]) (by simp) (by rw [← hp]; simp)
  exact run piece [] hne rfl

end Rule

/-! ## Texts -/

theorem not_infix_nil {mark : List α} (hm : mark ≠ []) : ¬ mark <:+: ([] : List α) :=
  fun h => hm (List.infix_nil.mp h)

variable [DecidableEq α]

/-- The text up to the first mark and with it, and the rest. `line` has been read already. -/
def readUntilFrom (mark line : List α) : List α → Option (List α × List α)
  | [] => none
  | c :: rest =>
    if mark <:+ line ++ [c] then some (line ++ [c], rest) else readUntilFrom mark (line ++ [c]) rest

def readUntil (mark text : List α) : Option (List α × List α) := readUntilFrom mark [] text

theorem readUntil_closes {mark piece : List α} (hm : mark ≠ []) (h : Closes mark piece)
    (rest : List α) : readUntil mark (piece ++ rest) = some (piece, rest) := by
  have := reader_closes List.cons (f := readUntilFrom mark)
    (g := fun line rest => some (line, rest)) (fun _ _ _ => rfl) (h.ne_nil hm) h rest
  rwa [List.foldr_cons_eq_append'] at this

theorem readUntilFrom_some {mark text : List α} : ∀ {line piece rest : List α},
    ¬ mark <:+: line → readUntilFrom mark line text = some (piece, rest) →
      Closes mark piece ∧ line ++ text = piece ++ rest := by
  induction text with
  | nil => intro line piece rest _ h; simp [readUntilFrom] at h
  | cons c text ih =>
    intro line piece rest hline h
    rw [readUntilFrom] at h
    split at h
    · rename_i hs
      obtain ⟨rfl, rfl⟩ : line ++ [c] = piece ∧ text = rest := by simpa using h
      exact ⟨⟨hs, by simpa using hline⟩, by simp⟩
    · rename_i hs
      obtain ⟨hp, heq⟩ := ih (fun hi => (List.infix_concat_iff.mp hi).elim hs hline) h
      exact ⟨hp, by rw [← heq]; simp⟩

theorem readUntilFrom_none {mark text : List α} : ∀ {line : List α},
    ¬ mark <:+: line → readUntilFrom mark line text = none → ¬ mark <:+: line ++ text := by
  induction text with
  | nil => intro line hline _; simpa using hline
  | cons c text ih =>
    intro line hline h
    rw [readUntilFrom] at h
    split at h
    · cases h
    · rename_i hs
      have := ih (fun hi => (List.infix_concat_iff.mp hi).elim hs hline) h
      simpa using this

theorem readUntil_some {mark text piece rest : List α} (hm : mark ≠ [])
    (h : readUntil mark text = some (piece, rest)) : Closes mark piece ∧ text = piece ++ rest :=
  readUntilFrom_some (not_infix_nil hm) h

theorem readUntil_none {mark text : List α} (hm : mark ≠ []) (h : readUntil mark text = none) :
    ¬ mark <:+: text :=
  readUntilFrom_none (not_infix_nil hm) h

end Lib
