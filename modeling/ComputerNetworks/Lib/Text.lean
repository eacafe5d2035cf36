import ComputerNetworks.Lib.Bytes

/-!
# Lines and joins

`std::getline` in a loop, and the join that it takes apart.
-/

universe u

namespace Lib.Text

variable {α : Type u}

/-! ## Joins -/

def join (delim : α) (pieces : List (List α)) : List α := [delim].intercalate pieces

@[simp] theorem join_nil (delim : α) : join delim [] = [] := rfl

@[simp] theorem join_singleton (delim : α) (piece : List α) : join delim [piece] = piece :=
  List.intercalate_singleton

theorem join_cons_cons (delim : α) (piece next : List α) (pieces : List (List α)) :
    join delim (piece :: next :: pieces) = piece ++ delim :: join delim (next :: pieces) := by
  rw [join, List.intercalate_cons_cons, List.append_assoc]
  rfl

theorem join_append (delim : α) {a b : List (List α)} (ha : a ≠ []) (hb : b ≠ []) :
    join delim (a ++ b) = join delim a ++ delim :: join delim b := by
  induction a with
  | nil => exact absurd rfl ha
  | cons piece a ih =>
    cases a with
    | nil =>
      obtain ⟨next, b, rfl⟩ := List.exists_cons_of_ne_nil hb
      rw [List.singleton_append, join_cons_cons, join_singleton]
    | cons next a =>
      have ih := ih (by simp)
      rw [List.cons_append] at ih
      rw [List.cons_append, List.cons_append, join_cons_cons, ih, join_cons_cons, List.append_assoc,
        List.cons_append]

theorem join_append_singleton (delim : α) (piece : List α) {pieces : List (List α)}
    (h : pieces ≠ []) : join delim (pieces ++ [piece]) = join delim pieces ++ delim :: piece := by
  rw [join_append delim h (by simp), join_singleton]

theorem join_append_delim (delim : α) {pieces : List (List α)} (h : pieces ≠ []) :
    join delim pieces ++ [delim] = pieces.flatMap (· ++ [delim]) := by
  induction pieces with
  | nil => exact absurd rfl h
  | cons piece pieces ih =>
    cases pieces with
    | nil => simp
    | cons next pieces =>
      rw [join_cons_cons, List.append_assoc, List.cons_append, ih (by simp),
        List.flatMap_cons (x := piece), List.append_assoc, List.singleton_append]

theorem mem_join {delim c : α} (hc : c ≠ delim) (pieces : List (List α)) :
    c ∈ join delim pieces ↔ ∃ p ∈ pieces, c ∈ p := by
  induction pieces with
  | nil => simp
  | cons piece pieces ih =>
    cases pieces with
    | nil => simp
    | cons next pieces =>
      rw [join_cons_cons, List.mem_append, List.mem_cons, ih]
      simp [hc]

theorem infix_join (delim : α) {pieces : List (List α)} {piece : List α} (h : piece ∈ pieces) :
    piece <:+: join delim pieces := by
  induction pieces with
  | nil => exact absurd h List.not_mem_nil
  | cons first pieces ih =>
    cases pieces with
    | nil =>
      obtain rfl := List.mem_singleton.mp h
      exact (join_singleton delim piece).symm ▸ List.infix_refl piece
    | cons next pieces =>
      rw [join_cons_cons]
      rcases List.mem_cons.mp h with rfl | h
      · exact (List.prefix_append _ _).isInfix
      · exact (ih h).trans ((List.suffix_cons _ _).trans (List.suffix_append _ _)).isInfix

theorem getLast?_join (delim : α) {pieces : List (List α)} (hne : pieces ≠ [])
    (h : ∀ p ∈ pieces, p ≠ [] ∧ delim ∉ p) : (join delim pieces).getLast? ≠ some delim := by
  obtain ⟨front, last, rfl⟩ := (List.eq_nil_or_concat pieces).resolve_left hne
  obtain ⟨hlast, hdelim⟩ := h last (by simp)
  have hend : (join delim (front.concat last)).getLast? = last.getLast? := by
    rw [List.concat_eq_append]
    by_cases hfront : front = []
    · rw [hfront, List.nil_append, join_singleton]
    · rw [join_append_singleton delim last hfront, List.append_cons,
        List.getLast?_append, List.getLast?_eq_some_getLast hlast, Option.some_or]
  rw [hend]
  exact fun h => hdelim (List.mem_of_getLast? h)

theorem join_eq_nil (delim : α) {pieces : List (List α)} (h : ∀ p ∈ pieces, p ≠ []) :
    join delim pieces = [] ↔ pieces = [] := by
  refine ⟨fun hj => ?_, fun hp => by rw [hp, join_nil]⟩
  match pieces, h, hj with
  | [], _, _ => rfl
  | [piece], h, hj => exact absurd (by simpa using hj) (h piece (by simp))
  | piece :: next :: pieces, h, hj => simp [join_cons_cons] at hj

/-! ## Lines -/

variable [DecidableEq α]

/-- The rest of a `getline` loop, where `line` has been read of the line at hand. The stream is
at its end after a last delimiter, so no empty line follows it. -/
def getlinesFrom (delim : α) (line : List α) : List α → List (List α)
  | [] => if line = [] then [] else [line]
  | c :: rest =>
    if c = delim then line :: getlinesFrom delim [] rest
    else getlinesFrom delim (line ++ [c]) rest

/-- What a `getline` loop takes from a stream. -/
def getlines (delim : α) (text : List α) : List (List α) := getlinesFrom delim [] text

theorem getlinesFrom_notMem (delim : α) (text : List α) :
    ∀ line, delim ∉ line → ∀ l ∈ getlinesFrom delim line text, delim ∉ l := by
  induction text with
  | nil =>
    intro line hline l hl
    rw [getlinesFrom] at hl
    split at hl
    · simp at hl
    · rw [List.mem_singleton.mp hl]; exact hline
  | cons c rest ih =>
    intro line hline l hl
    rw [getlinesFrom] at hl
    split at hl
    · rcases List.mem_cons.mp hl with rfl | hl
      · exact hline
      · exact ih [] (by simp) l hl
    · rename_i hc
      exact ih (line ++ [c]) (by simp [hline, Ne.symm hc]) l hl

theorem getlines_notMem (delim : α) (text : List α) : ∀ l ∈ getlines delim text, delim ∉ l :=
  getlinesFrom_notMem delim text [] (by simp)

theorem getlinesFrom_append (delim : α) {piece : List α} (h : delim ∉ piece) (text : List α) :
    ∀ line, getlinesFrom delim line (piece ++ text) = getlinesFrom delim (line ++ piece) text := by
  induction piece with
  | nil => intro line; simp
  | cons c piece ih =>
    intro line
    have hc : c ≠ delim := by rintro rfl; simp at h
    rw [List.cons_append, getlinesFrom, if_neg hc, ih (by simp at h; exact h.2),
      List.append_assoc]
    rfl

theorem getlines_line (delim : α) {piece : List α} (h : delim ∉ piece) (rest : List α) :
    getlines delim (piece ++ delim :: rest) = piece :: getlines delim rest := by
  rw [getlines, getlinesFrom_append delim h, List.nil_append, getlinesFrom, if_pos rfl]
  rfl

/-- Induction on the lines of a text. -/
theorem lines_induction (delim : α) {motive : List α → Prop}
    (hlast : ∀ text, delim ∉ text → motive text)
    (hline : ∀ line text, delim ∉ line → motive text → motive (line ++ delim :: text))
    (text : List α) : motive text := by
  induction hn : text.length using Nat.strong_induction_on generalizing text with
  | _ n ih =>
    by_cases hmem : delim ∈ text
    · obtain ⟨line, rest, rfl, hfree⟩ := List.eq_append_cons_of_mem hmem
      rw [List.length_append, List.length_cons] at hn
      exact hline line rest hfree (ih rest.length (by omega) rest rfl)
    · exact hlast text hmem

theorem getlines_join (delim : α) {pieces : List (List α)}
    (h : ∀ p ∈ pieces, p ≠ [] ∧ delim ∉ p) : getlines delim (join delim pieces) = pieces := by
  induction pieces with
  | nil => rfl
  | cons piece pieces ih =>
    have ih := ih fun p hp => h p (List.mem_cons_of_mem _ hp)
    obtain ⟨hne, hpiece⟩ := h piece (by simp)
    cases pieces with
    | nil =>
      have hline := getlinesFrom_append delim hpiece [] []
      rw [List.append_nil, List.nil_append] at hline
      rw [join_singleton, getlines, hline, getlinesFrom, if_neg hne]
    | cons next pieces =>
      rw [join_cons_cons, getlines_line delim hpiece, ih]

theorem getlines_flatMap (delim : α) {pieces : List (List α)} (h : ∀ p ∈ pieces, delim ∉ p) :
    getlines delim (pieces.flatMap (· ++ [delim])) = pieces := by
  induction pieces with
  | nil => rfl
  | cons piece pieces ih =>
    rw [List.flatMap_cons, List.append_assoc, List.singleton_append,
      getlines_line delim (h piece (by simp)), ih fun p hp => h p (List.mem_cons_of_mem _ hp)]

theorem getlinesFrom_spec (delim : α) (text : List α) : ∀ line,
    line ++ text = join delim (getlinesFrom delim line text) ∨
      line ++ text = (getlinesFrom delim line text).flatMap (· ++ [delim]) := by
  induction text with
  | nil =>
    intro line
    rw [getlinesFrom]
    split
    · rename_i hline
      simp [hline]
    · simp
  | cons c rest ih =>
    intro line
    rw [getlinesFrom]
    split
    · rename_i hc
      subst hc
      rcases ih [] with h | h <;> rw [List.nil_append] at h
      · cases hlines : getlinesFrom c [] rest with
        | nil => rw [hlines] at h; simp [h]
        | cons next pieces =>
          left
          rw [join_cons_cons, ← hlines, ← h]
      · right
        rw [List.flatMap_cons, ← h, List.append_assoc, List.singleton_append]
    · have hih := ih (line ++ [c])
      rw [List.append_assoc, List.singleton_append] at hih
      exact hih

theorem getlines_spec (delim : α) (text : List α) :
    text = join delim (getlines delim text) ∨
      text = (getlines delim text).flatMap (· ++ [delim]) :=
  getlinesFrom_spec delim text []

end Lib.Text
