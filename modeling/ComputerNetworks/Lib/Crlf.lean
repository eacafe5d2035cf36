import ComputerNetworks.Lib.Machine
import ComputerNetworks.Lib.Text
import ComputerNetworks.Lib.Until
import Mathlib.Tactic.Common

/-!
# Lines that end in CRLF

The lines of the text protocols, and the dot rule of RFC 5321, 4.5.2: a message ends at the line that
is one dot, and a dot in front of any other line is taken off it.
-/

open Lib.Bytes

namespace Lib.Crlf

def cr : UInt8 := 0x0D

def lf : UInt8 := 0x0A

def crlf : Bytes := [cr, lf]

theorem crlf_ne_nil : crlf ≠ [] := by decide

theorem not_crlf_suffix_cr (t : Bytes) : ¬ crlf <:+ t ++ [cr] := by
  rintro ⟨before, h⟩
  have := congrArg List.getLast? h
  simp [crlf, cr, lf] at this

theorem closes_crlf {t : Bytes} (h : ¬ crlf <:+: t) : Closes crlf (t ++ crlf) where
  ends := List.suffix_append t crlf
  fresh := by
    rw [show (t ++ crlf).dropLast = t ++ [cr] by simp [crlf]]
    intro hi
    exact (List.infix_concat_iff.mp hi).elim (not_crlf_suffix_cr t) h

theorem crlf_not_inside {t : Bytes} (h : cr ∉ t) : ¬ crlf <:+: t :=
  fun hi => h (hi.subset (by simp [crlf]))

/-! ## Lines of a text -/

theorem exists_lines_tail (text : Bytes) : ∃ lines tail, text = List.flatten lines ++ tail ∧
    (∀ l ∈ lines, Closes crlf l) ∧ ¬ crlf <:+: tail := by
  induction hn : text.length using Nat.strong_induction_on generalizing text with
  | _ n ih =>
    cases hr : readUntil crlf text with
    | none => exact ⟨[], text, by simp, by simp, readUntil_none crlf_ne_nil hr⟩
    | some split =>
      obtain ⟨line, rest⟩ := split
      obtain ⟨hline, rfl⟩ := readUntil_some crlf_ne_nil hr
      have hpos := List.length_pos_iff.mpr (hline.ne_nil crlf_ne_nil)
      rw [List.length_append] at hn
      obtain ⟨lines, tail, rfl, hlines, htail⟩ := ih rest.length (by omega) rest rfl
      refine ⟨line :: lines, tail, by simp, ?_, htail⟩
      intro l hl
      rcases List.mem_cons.mp hl with rfl | hl
      · exact hline
      · exact hlines l hl

theorem exists_lines (text : Bytes) :
    ∃ lines, text ++ crlf = List.flatten lines ∧ ∀ l ∈ lines, Closes crlf l := by
  obtain ⟨lines, tail, rfl, hlines, htail⟩ := exists_lines_tail text
  refine ⟨lines ++ [tail ++ crlf], by simp, ?_⟩
  intro l hl
  rcases List.mem_append.mp hl with hl | hl
  · exact hlines l hl
  · rw [List.mem_singleton.mp hl]
    exact closes_crlf htail

/-! ## The lines themselves -/

/-- The lines that end in CRLF, without it. `line` is what has been read of the line at hand. -/
def crlfLinesFrom (line : Bytes) : Bytes → List Bytes
  | [] => []
  | c :: rest =>
    if crlf <:+ line ++ [c] then (line ++ [c]).dropLast.dropLast :: crlfLinesFrom [] rest
    else crlfLinesFrom (line ++ [c]) rest

def crlfLines (text : Bytes) : List Bytes := crlfLinesFrom [] text

theorem crlfLines_closes {line : Bytes} (h : Closes crlf line) (rest : Bytes) :
    crlfLines (line ++ rest) = line.dropLast.dropLast :: crlfLines rest := by
  have hread := reader_closes List.cons (f := crlfLinesFrom)
    (g := fun line rest => line.dropLast.dropLast :: crlfLinesFrom [] rest)
    (fun _ _ _ => rfl) (h.ne_nil crlf_ne_nil) h rest
  rwa [List.foldr_cons_eq_append'] at hread

theorem crlfLines_line {line : Bytes} (h : ¬ crlf <:+: line) (rest : Bytes) :
    crlfLines (line ++ crlf ++ rest) = line :: crlfLines rest := by
  have hline : (line ++ crlf).dropLast.dropLast = line := by simp [crlf]
  rw [crlfLines_closes (closes_crlf h), hline]

theorem crlfLines_append (text rest : Bytes) :
    crlfLines (text ++ crlf ++ rest) = crlfLines (text ++ crlf) ++ crlfLines rest := by
  obtain ⟨lines, hflat, hlines⟩ := exists_lines text
  rw [hflat]
  clear hflat
  induction lines with
  | nil => rfl
  | cons line lines ih =>
    have hline := hlines line List.mem_cons_self
    rw [List.flatten_cons, List.append_assoc, crlfLines_closes hline, crlfLines_closes hline,
      ih fun l hl => hlines l (List.mem_cons_of_mem _ hl), List.cons_append]

theorem crlfLinesFrom_fresh (text : Bytes) : ∀ line, ¬ crlf <:+: line →
    ∀ l ∈ crlfLinesFrom line text, ¬ crlf <:+: l := by
  induction text with
  | nil => intro line _ l hl; exact absurd hl List.not_mem_nil
  | cons c text ih =>
    intro line hline l hl
    rw [crlfLinesFrom] at hl
    split at hl
    · rcases List.mem_cons.mp hl with rfl | hl
      · rw [List.dropLast_concat]
        exact fun hinside => hline (hinside.trans (List.dropLast_prefix line).isInfix)
      · exact ih [] (not_infix_nil crlf_ne_nil) l hl
    · rename_i hends
      exact ih _ (fun hinside => (List.infix_concat_iff.mp hinside).elim hends hline) l hl

theorem crlfLines_fresh {text l : Bytes} (h : l ∈ crlfLines text) : ¬ crlf <:+: l :=
  crlfLinesFrom_fresh text [] (not_infix_nil crlf_ne_nil) l h

theorem crlfLines_flatten {lines : List Bytes} (h : ∀ l ∈ lines, Closes crlf l) :
    crlfLines lines.flatten = lines.map fun l => l.dropLast.dropLast := by
  induction lines with
  | nil => rfl
  | cons line lines ih =>
    obtain ⟨hline, hlines⟩ := List.forall_mem_cons.mp h
    rw [List.flatten_cons, crlfLines_closes hline, ih hlines, List.map_cons]

/-! ## Line by line -/

/-- What is written splits into lines. The state is what has been read of the line at hand. -/
def splitting : Machine Bytes UInt8 Bytes where
  step line c := if crlf <:+ line ++ [c] then ([], [(line ++ [c]).dropLast.dropLast]) else (line ++ [c], [])

theorem splitting_run (text : Bytes) : ∀ line,
    (splitting.run line text).2 = crlfLinesFrom line text := by
  induction text with
  | nil => intro line; rfl
  | cons c text ih =>
    intro line
    rw [Machine.run, crlfLinesFrom, splitting]
    by_cases hends : crlf <:+ line ++ [c]
    · simp only [if_pos hends, ← ih]
      rfl
    · simp only [if_neg hends, ← ih]
      rfl

theorem splitting_lines (text : Bytes) : (splitting.run [] text).2 = crlfLines text :=
  splitting_run text []

theorem splitting_crlf (line text : Bytes) : ∃ last,
    splitting.run line (text ++ crlf) = ([], (splitting.run line (text ++ [cr])).2 ++ [last]) := by
  have hcr : ∀ line, splitting.step line cr = (line ++ [cr], []) := fun line =>
    if_neg (not_crlf_suffix_cr line)
  have hlf : ∀ line, splitting.step (line ++ [cr]) lf =
      ([], [(line ++ [cr] ++ [lf]).dropLast.dropLast]) := fun line => if_pos ⟨line, by simp [crlf]⟩
  have hpart : (splitting.run line (text ++ [cr])).1 = (splitting.run line text).1 ++ [cr] := by
    rw [Machine.run_snoc, hcr]
  refine ⟨((splitting.run line text).1 ++ [cr] ++ [lf]).dropLast.dropLast, ?_⟩
  rw [show text ++ crlf = text ++ [cr] ++ [lf] by simp [crlf], Machine.run_snoc, hpart, hlf]

theorem crlfLines_part {part text : Bytes} (hpart : part <+: text ++ crlf) (hne : part ≠ text ++ crlf) :
    crlfLines part <+: (crlfLines (text ++ crlf)).dropLast := by
  have hwhole : text ++ crlf = text ++ [cr] ++ [lf] := by simp [crlf]
  have hfront : part <+: text ++ [cr] := by
    rw [hwhole] at hpart hne
    exact (List.prefix_concat_iff.mp hpart).resolve_left hne
  obtain ⟨behind, hbehind⟩ := hfront
  obtain ⟨last, hlast⟩ := splitting_crlf [] text
  rw [← splitting_lines, ← splitting_lines, hlast, List.dropLast_concat, ← hbehind, Machine.run_append]
  exact List.prefix_append _ _

/-! ## A header -/

theorem append_cons_cases {α : Type*} {x y a z : List α} {c : α} (h : x ++ c :: y = a ++ c :: z)
    (hx : c ∉ x) : a = x ∧ y = z ∨ ∃ b, a = x ++ c :: b ∧ y = b ++ c :: z := by
  rcases List.append_eq_append_iff.mp h with ⟨more, ha, hy⟩ | ⟨more, hx', hz⟩
  · cases more with
    | nil => exact Or.inl ⟨by simpa using ha, by simpa using hy⟩
    | cons d more =>
      obtain ⟨rfl, rfl⟩ : c = d ∧ y = more ++ c :: z := by simpa using hy
      exact Or.inr ⟨more, ha, rfl⟩
  · cases more with
    | nil => exact Or.inl ⟨by simpa using hx'.symm, by simpa using hz.symm⟩
    | cons d more =>
      obtain ⟨rfl, -⟩ : c = d ∧ z = more ++ c :: y := by simpa using hz
      exact absurd (by simp [hx']) hx

def headerText (lines : List Bytes) : Bytes := lines.flatMap (· ++ crlf)

theorem crlfLines_headerText {lines : List Bytes} (h : ∀ l ∈ lines, ¬ crlf <:+: l) (rest : Bytes) :
    crlfLines (headerText lines ++ rest) = lines ++ crlfLines rest := by
  induction lines with
  | nil => rfl
  | cons line lines ih =>
    obtain ⟨hline, hlines⟩ := List.forall_mem_cons.mp h
    rw [headerText, List.flatMap_cons, List.append_assoc, crlfLines_line hline, ← headerText, ih hlines,
      List.cons_append]

theorem headerText_crlfLines (text : Bytes) : headerText (crlfLines (text ++ crlf)) = text ++ crlf := by
  obtain ⟨lines, hflat, hlines⟩ := exists_lines text
  rw [hflat, crlfLines_flatten hlines]
  clear hflat
  induction lines with
  | nil => rfl
  | cons line lines ih =>
    obtain ⟨front, rfl⟩ := (hlines line List.mem_cons_self).ends
    rw [List.map_cons, headerText, List.flatMap_cons, ← headerText,
      ih fun l hl => hlines l (List.mem_cons_of_mem _ hl), List.flatten_cons]
    simp [crlf]

/-- The lines of a header: no LF in any, and none of them empty. -/
def HeaderLines (lines : List Bytes) : Prop := ∀ l ∈ lines, lf ∉ l ∧ l ≠ []

theorem lf_notMem_append_cr {l : Bytes} (h : lf ∉ l) : lf ∉ l ++ [cr] := by
  simpa [cr, lf] using h

/-- A line feed and a CRLF stand nowhere but at the end of a header and its empty line. -/
theorem lf_crlf_at_end {lines : List Bytes} (h : HeaderLines lines) :
    ∀ {before behind : Bytes}, headerText lines ++ crlf = before ++ lf :: cr :: lf :: behind →
      behind = [] := by
  induction lines with
  | nil =>
    intro before behind heq
    have := congrArg List.length heq
    simp [headerText, crlf] at this
    omega
  | cons line lines ih =>
    intro before behind heq
    obtain ⟨hlf, -⟩ := h line (by simp)
    have hlines : HeaderLines lines := fun l hl => h l (List.mem_cons_of_mem _ hl)
    have heq : (line ++ [cr]) ++ lf :: (headerText lines ++ crlf) =
        before ++ lf :: (cr :: lf :: behind) := by
      rw [← heq]
      simp [headerText, crlf]
    rcases append_cons_cases heq (lf_notMem_append_cr hlf) with ⟨-, hnext⟩ | ⟨b, -, hnext⟩
    · -- The line feed is the one of this line, so an empty line follows it: it is the last one.
      cases lines with
      | nil => simpa [headerText, crlf] using hnext.symm
      | cons next lines =>
        obtain ⟨hlf', hne⟩ := hlines next (by simp)
        exfalso
        match next, hlf', hne, hnext with
        | [c], _, _, hnext => simp [headerText, crlf, cr, lf] at hnext
        | c :: d :: next, hlf', _, hnext =>
          obtain ⟨-, rfl, -⟩ : c = cr ∧ d = lf ∧ _ := by simpa [headerText] using hnext
          simp at hlf'
    · exact ih hlines hnext

/-- **Header and body.** A header ends at its first empty line, the one that was put behind it. -/
theorem closes_header {lines : List Bytes} (h : HeaderLines lines) (hne : lines ≠ []) :
    Closes (crlf ++ crlf) (headerText lines ++ crlf) where
  ends := by
    obtain ⟨front, last, rfl⟩ : ∃ front last, lines = front ++ [last] :=
      ⟨_, _, (List.dropLast_append_getLast hne).symm⟩
    exact ⟨headerText front ++ last, by simp [headerText]⟩
  fresh := by
    rintro ⟨before, behind, heq⟩
    have hwhole : headerText lines ++ crlf =
        (before ++ [cr]) ++ lf :: cr :: lf :: (behind ++ [lf]) := by
      have hlast : headerText lines ++ crlf = (headerText lines ++ crlf).dropLast ++ [lf] := by
        simp [crlf]
      rw [hlast, ← heq]
      simp [crlf]
    have := lf_crlf_at_end h hwhole
    simp at this

theorem getlines_header {lines : List Bytes} (h : HeaderLines lines) (rest : Bytes) :
    Text.getlines lf (headerText lines ++ crlf ++ rest) =
      lines.map (· ++ [cr]) ++ [cr] :: Text.getlines lf rest := by
  induction lines with
  | nil =>
    have hcr : lf ∉ [cr] := by decide
    exact Text.getlines_line lf hcr rest
  | cons line lines ih =>
    obtain ⟨hlf, -⟩ := h line (by simp)
    have hline := Text.getlines_line lf (lf_notMem_append_cr hlf) (headerText lines ++ crlf ++ rest)
    rw [ih fun l hl => h l (List.mem_cons_of_mem _ hl)] at hline
    rw [List.map_cons, List.cons_append, ← hline]
    simp [headerText, crlf]

/-! ## The dot rule -/

def lastLine : Bytes := dot :: crlf

theorem closes_lastLine : Closes crlf lastLine := closes_crlf (crlf_not_inside (t := [dot]) (by decide))

/-- Takes one dot off the front of a line. -/
def unstuff : Bytes → Bytes
  | [] => []
  | c :: line => if c = dot then line else c :: line

/-- The receiver of a message: `out` is what it has of the message, and `line` what it has read of
the line at hand. It comes to the message and to what is left unread. -/
def readDataFrom (out line : Bytes) : Bytes → Option (Bytes × Bytes)
  | [] => none
  | c :: rest =>
    if crlf <:+ line ++ [c] then
      if line ++ [c] = lastLine then some (out, rest)
      else readDataFrom (out ++ unstuff (line ++ [c])) [] rest
    else readDataFrom out (line ++ [c]) rest

def readData (text : Bytes) : Option (Bytes × Bytes) := readDataFrom [] [] text

theorem readDataFrom_line (out : Bytes) {line : Bytes} (h : Closes crlf line) (rest : Bytes) :
    readDataFrom out [] (line ++ rest) =
      if line = lastLine then some (out, rest) else readDataFrom (out ++ unstuff line) [] rest := by
  have := reader_closes List.cons (f := readDataFrom out)
    (g := fun line rest => if line = lastLine then some (out, rest)
      else readDataFrom (out ++ unstuff line) [] rest)
    (fun _ _ _ => rfl) (h.ne_nil crlf_ne_nil) h rest
  rwa [List.foldr_cons_eq_append'] at this

theorem unstuff_of_not_dot {line : Bytes} (h : ¬ [dot] <+: line) : unstuff line = line := by
  cases line with
  | nil => rfl
  | cons c line =>
    rw [unstuff, if_neg]
    rintro rfl
    exact h (List.prefix_append [dot] line)

theorem unstuff_length_lt {line : Bytes} (h : [dot] <+: line) :
    (unstuff line).length < line.length := by
  obtain ⟨rest, rfl⟩ := h
  simp [unstuff]

theorem unstuff_length_le (line : Bytes) : (unstuff line).length ≤ line.length := by
  by_cases h : [dot] <+: line
  · exact (unstuff_length_lt h).le
  · rw [unstuff_of_not_dot h]

theorem readDataFrom_length {lines : List Bytes} (h : ∀ l ∈ lines, Closes crlf l) :
    ∀ {out message rest : Bytes},
      readDataFrom out [] (lines.flatten ++ lastLine) = some (message, rest) →
      message.length + rest.length ≤ out.length + lines.flatten.length := by
  induction lines with
  | nil =>
    intro out message rest hr
    have hlast := readDataFrom_line out closes_lastLine []
    rw [if_pos rfl, List.append_nil] at hlast
    rw [List.flatten_nil, List.nil_append, hlast] at hr
    obtain ⟨rfl, rfl⟩ : out = message ∧ [] = rest := by simpa using hr
    simp
  | cons line lines ih =>
    intro out message rest hr
    rw [List.flatten_cons, List.append_assoc, readDataFrom_line out (h line (by simp))] at hr
    split at hr
    · -- The message ends here, and the lines behind are left over.
      rename_i hline
      obtain ⟨rfl, rfl⟩ : out = message ∧ lines.flatten ++ lastLine = rest := by simpa using hr
      simp [hline]
      omega
    · have := ih (fun l hl => h l (List.mem_cons_of_mem _ hl)) hr
      have := unstuff_length_le line
      simp only [List.flatten_cons, List.length_append] at *
      omega

/-- **Transparency.** The receiver gets the lines back as they were sent, and reads all of them,
exactly when none of them starts with a dot. -/
theorem readDataFrom_lines {lines : List Bytes} (h : ∀ l ∈ lines, Closes crlf l) :
    ∀ out : Bytes, readDataFrom out [] (lines.flatten ++ lastLine) = some (out ++ lines.flatten, []) ↔
      ∀ l ∈ lines, ¬ [dot] <+: l := by
  induction lines with
  | nil =>
    intro out
    have hlast := readDataFrom_line out closes_lastLine []
    rw [if_pos rfl, List.append_nil] at hlast
    simp [hlast]
  | cons line lines ih =>
    intro out
    have hlines : ∀ l ∈ lines, Closes crlf l := fun l hl => h l (List.mem_cons_of_mem _ hl)
    have hline := h line (by simp)
    rw [List.flatten_cons, List.append_assoc, readDataFrom_line out hline, List.forall_mem_cons]
    by_cases hdot : [dot] <+: line
    · -- A line that starts with a dot ends the message, or loses the dot.
      refine iff_of_false ?_ fun hall => hall.1 hdot
      intro hr
      split at hr
      · simp [lastLine] at hr
      · have := readDataFrom_length hlines hr
        have := unstuff_length_lt hdot
        simp only [List.length_append, List.length_nil] at *
        omega
    · have hlast : line ≠ lastLine := by
        rintro rfl
        exact hdot (List.prefix_append [dot] crlf)
      rw [if_neg hlast, unstuff_of_not_dot hdot, ← List.append_assoc, ih hlines]
      simp [hdot]

/-! ## Where the dots are -/

/-- A dot starts a line of the text: the first one, or one behind a CRLF. -/
def DotStartsLine (text : Bytes) : Prop := [dot] <+: text ∨ crlf ++ [dot] <:+: text

instance (text : Bytes) : Decidable (DotStartsLine text) :=
  inferInstanceAs (Decidable (_ ∨ _))

theorem dotStartsLine_nil : ¬ DotStartsLine [] := by decide

theorem crlf_dot_infix_line {line rest : Bytes} (h : Closes crlf line) :
    crlf ++ [dot] <:+: line ++ rest ↔ DotStartsLine rest := by
  constructor
  · rintro ⟨before, behind, heq⟩
    have heq : before ++ crlf ++ dot :: behind = line ++ rest := by rw [← heq]; simp
    -- The CRLF in front of the dot is the one of this line, or stands behind it.
    rcases List.append_eq_append_iff.mp heq with ⟨more, hl, hr⟩ | ⟨more, hl, hr⟩
    · cases more with
      | nil => exact Or.inl ⟨behind, by simpa using hr⟩
      | cons c more => exact absurd (List.suffix_append before crlf) (h.not_suffix hl)
    · rcases List.suffix_or_suffix_of_suffix (hl ▸ List.suffix_append before crlf)
        (List.suffix_append line more) with ⟨t, rfl⟩ | hs
      · exact Or.inr ⟨t, behind, by rw [hr]; simp⟩
      · rcases List.suffix_cons_iff.mp hs with rfl | hs
        · exact Or.inr ⟨[], behind, by rw [hr]; simp [crlf]⟩
        rcases List.suffix_cons_iff.mp hs with rfl | hs
        · -- One LF behind the line: the line itself would end in a CR.
          have hline : before ++ [cr] ++ [lf] = line ++ [lf] := by rw [← hl]; simp [crlf]
          have hline := List.append_cancel_right hline
          exact absurd (hline ▸ h.ends) (not_crlf_suffix_cr before)
        · rw [List.suffix_nil.mp hs] at hr
          exact Or.inl ⟨behind, by rw [hr]; rfl⟩
  · rintro (⟨behind, rfl⟩ | hi)
    · obtain ⟨t, rfl⟩ := h.ends
      exact ⟨t, behind, by simp⟩
    · exact hi.trans (List.suffix_append line rest).isInfix

theorem dotStartsLine_line {line rest : Bytes} (h : Closes crlf line) :
    DotStartsLine (line ++ rest) ↔ [dot] <+: line ∨ DotStartsLine rest := by
  rw [DotStartsLine, crlf_dot_infix_line h]
  have hne := h.ne_nil crlf_ne_nil
  cases line with
  | nil => exact absurd rfl hne
  | cons c line => simp only [List.cons_append, List.cons_prefix_cons, List.nil_prefix]

theorem dotStartsLine_lines {lines : List Bytes} (h : ∀ l ∈ lines, Closes crlf l) :
    DotStartsLine lines.flatten ↔ ∃ l ∈ lines, [dot] <+: l := by
  induction lines with
  | nil => exact iff_of_false dotStartsLine_nil (by simp)
  | cons line lines ih =>
    rw [List.flatten_cons, dotStartsLine_line (h line (by simp)),
      ih fun l hl => h l (List.mem_cons_of_mem _ hl), List.exists_mem_cons_iff]

theorem crlf_dot_infix_append_cons {text : Bytes} {c : UInt8} (hc : c ≠ dot) :
    crlf ++ [dot] <:+: text ++ [c] ↔ crlf ++ [dot] <:+: text := by
  rw [List.infix_concat_iff]
  refine or_iff_right ?_
  rintro ⟨before, h⟩
  have := congrArg List.getLast? h
  simp at this
  exact hc this.symm

theorem dotStartsLine_append_crlf (text : Bytes) :
    DotStartsLine (text ++ crlf) ↔ DotStartsLine text := by
  have hcrlf : text ++ crlf = text ++ [cr] ++ [lf] := by simp [crlf]
  unfold DotStartsLine
  apply or_congr
  · cases text with
    | nil => decide
    | cons c text => simp only [List.cons_append, List.cons_prefix_cons, List.nil_prefix]
  · rw [hcrlf, crlf_dot_infix_append_cons (by decide), crlf_dot_infix_append_cons (by decide)]

theorem not_dot_of_mem {text l : Bytes} (h : ¬ DotStartsLine text) (hl : l ∈ crlfLines (text ++ crlf)) :
    ¬ [dot] <+: l := by
  obtain ⟨lines, hflat, hlines⟩ := exists_lines text
  rw [← dotStartsLine_append_crlf, hflat, dotStartsLine_lines hlines] at h
  rw [hflat, crlfLines_flatten hlines] at hl
  obtain ⟨line, hline, rfl⟩ := List.mem_map.mp hl
  intro hdot
  exact h ⟨line, hline, hdot.trans ((List.dropLast_prefix _).trans (List.dropLast_prefix _))⟩

/-- **The dot rule.** A text sent with a CRLF and the last line behind it comes through, with nothing
left over, exactly when no dot starts a line of it. -/
theorem readData_append (text : Bytes) :
    readData (text ++ crlf ++ lastLine) = some (text ++ crlf, []) ↔ ¬ DotStartsLine text := by
  obtain ⟨lines, hflat, hlines⟩ := exists_lines text
  rw [← dotStartsLine_append_crlf, hflat, dotStartsLine_lines hlines, readData]
  have := readDataFrom_lines hlines []
  rw [List.nil_append] at this
  rw [this]
  push Not
  rfl

end Lib.Crlf
