import ComputerNetworks.Proxy.Target

/-!
# Where the headers end

`parseRequest` looks for the end of the headers twice: its `getline` loop stops at a blank line, and the
body of a `POST` starts behind a CRLF and another one.
-/

open Lib Lib.Bytes Lib.Crlf Lib.Ctype Lib.Fields

namespace Proxy

/-! ## The header loop -/

/-- A line that ends the header loop. -/
def Blank (line : Bytes) : Prop := line = [cr] ∨ line = []

instance (line : Bytes) : Decidable (Blank line) := inferInstanceAs (Decidable (_ ∨ _))

/-- What the header loop leaves in the stream, where `line` has been read of the line at hand. -/
def unreadFrom (line : Bytes) : Bytes → Bytes
  | [] => []
  | c :: rest =>
    if c = lf then if Blank line then rest else unreadFrom [] rest
    else unreadFrom (line ++ [c]) rest

/-- What is left in the stream when the request line and the headers have been read. -/
def unread (rawRequest : Bytes) : Bytes :=
  match cut lf rawRequest with
  | none => []
  | some (_, rest) => unreadFrom [] rest

theorem unreadFrom_line {piece : Bytes} (h : lf ∉ piece) (line text : Bytes) :
    unreadFrom line (piece ++ lf :: text) =
      if Blank (line ++ piece) then text else unreadFrom [] text := by
  induction piece generalizing line with
  | nil => rw [List.nil_append, unreadFrom, if_pos rfl, List.append_nil]
  | cons c piece ih =>
    rw [List.mem_cons, not_or] at h
    rw [List.cons_append, unreadFrom, if_neg (Ne.symm h.1), ih h.2, List.append_assoc]
    rfl

theorem unreadFrom_last {text : Bytes} (h : lf ∉ text) (line : Bytes) :
    unreadFrom line text = [] := by
  induction text generalizing line with
  | nil => rfl
  | cons c text ih =>
    rw [List.mem_cons, not_or] at h
    rw [unreadFrom, if_neg (Ne.symm h.1), ih h.2]

/-! ## Heads -/

/-- Lines up to the first blank one, and with it. -/
inductive Headers : Bytes → Prop where
  | blank {line : Bytes} : lf ∉ line → Blank line → Headers (line ++ [lf])
  | line {line text : Bytes} : lf ∉ line → ¬Blank line → Headers text → Headers (line ++ lf :: text)

/-- A first line, and lines up to the first blank one behind it. -/
inductive Head : Bytes → Prop where
  | mk {line text : Bytes} : lf ∉ line → Headers text → Head (line ++ lf :: text)

theorem Headers.unreadFrom_append {text : Bytes} (h : Headers text) (rest : Bytes) :
    unreadFrom [] (text ++ rest) = rest := by
  induction h with
  | blank hline hblank =>
    rw [List.append_assoc, List.singleton_append, unreadFrom_line hline, List.nil_append,
      if_pos hblank]
  | line hline hblank _ ih =>
    rw [List.append_assoc, List.cons_append, unreadFrom_line hline, List.nil_append,
      if_neg hblank, ih]

theorem Head.unread_append {head : Bytes} (h : Head head) (rest : Bytes) :
    unread (head ++ rest) = rest := by
  cases h with
  | mk hline htext =>
    rw [unread, List.append_assoc, List.cons_append, cut_append lf hline]
    exact htext.unreadFrom_append rest

theorem unreadFrom_cases (text : Bytes) :
    unreadFrom [] text = [] ∨ ∃ front, Headers front ∧ text = front ++ unreadFrom [] text := by
  induction text using Text.lines_induction lf with
  | hlast text htext => exact Or.inl (unreadFrom_last htext [])
  | hline line text hline ih =>
    rw [unreadFrom_line hline, List.nil_append]
    split
    · rename_i hblank
      exact Or.inr ⟨_, .blank hline hblank, by simp⟩
    · rename_i hblank
      refine ih.imp_right ?_
      rintro ⟨front, hfront, heq⟩
      refine ⟨_, .line hline hblank hfront, ?_⟩
      rw [List.append_assoc, List.cons_append, ← heq]

theorem unread_cases (rawRequest : Bytes) :
    unread rawRequest = [] ∨ ∃ head, Head head ∧ rawRequest = head ++ unread rawRequest := by
  unfold unread
  cases hcut : cut lf rawRequest with
  | none => exact Or.inl rfl
  | some parts =>
    obtain ⟨line, text⟩ := parts
    obtain ⟨rfl, hline⟩ := cut_eq_some hcut
    refine (unreadFrom_cases text).imp_right ?_
    rintro ⟨front, hfront, heq⟩
    refine ⟨_, .mk hline hfront, ?_⟩
    rw [List.append_assoc, List.cons_append]
    exact congrArg (fun t => line ++ lf :: t) heq

/-! ## Two line ends in a row -/

theorem exists_headers {text : Bytes}
    (h : [cr, lf] <+: text ∨ lf :: [cr, lf] <:+: text) :
    ∃ front rest, Headers front ∧ text = front ++ rest := by
  induction text using Text.lines_induction lf with
  | hlast text htext =>
    have hmem : lf ∈ text := by
      rcases h with h | h
      · exact h.subset (by decide)
      · exact h.subset (by decide)
    exact absurd hmem htext
  | hline line text hline ih =>
    by_cases hblank : Blank line
    · exact ⟨_, text, .blank hline hblank, by simp⟩
    have hnext : [cr, lf] <+: text ∨ lf :: [cr, lf] <:+: text := by
      rcases h with ⟨behind, heq⟩ | ⟨before, behind, heq⟩
      · -- The line would be a CR, and blank.
        have heq : [cr] ++ lf :: behind = line ++ lf :: text := heq
        rcases append_cons_cases heq (by decide) with ⟨hcr, -⟩ | ⟨b, hcr, -⟩
        · exact absurd (Or.inl hcr) hblank
        · exact absurd (hcr ▸ List.mem_append_right [cr] List.mem_cons_self) hline
      · have heq : line ++ lf :: text = before ++ lf :: (cr :: lf :: behind) := by
          rw [← heq]
          simp
        rcases append_cons_cases heq hline with ⟨-, rfl⟩ | ⟨b, -, rfl⟩
        · exact Or.inl ⟨behind, rfl⟩
        · exact Or.inr ⟨b, behind, by simp⟩
    obtain ⟨front, rest, hfront, rfl⟩ := ih hnext
    exact ⟨_, rest, .line hline hblank hfront, by simp⟩

theorem exists_head {text : Bytes} (h : crlf ++ crlf <:+: text) :
    ∃ head rest, Head head ∧ text = head ++ rest := by
  obtain ⟨before, behind, rfl⟩ := h
  have hsplit : before ++ (crlf ++ crlf) ++ behind =
      (before ++ [cr]) ++ lf :: (cr :: lf :: behind) := by simp [crlf]
  rw [hsplit]
  obtain ⟨line, text, heq, hline⟩ :
      ∃ line text, (before ++ [cr]) ++ lf :: (cr :: lf :: behind) = line ++ lf :: text ∧ lf ∉ line := by
    obtain ⟨line, text, heq, hline⟩ := List.eq_append_cons_of_mem
      (show lf ∈ (before ++ [cr]) ++ lf :: (cr :: lf :: behind) by simp)
    exact ⟨line, text, heq, hline⟩
  have htext : [cr, lf] <+: text ∨ lf :: [cr, lf] <:+: text := by
    rcases append_cons_cases heq.symm hline with ⟨-, rfl⟩ | ⟨b, -, rfl⟩
    · exact Or.inl ⟨behind, rfl⟩
    · exact Or.inr ⟨b, behind, by simp⟩
  obtain ⟨front, rest, hfront, rfl⟩ := exists_headers htext
  rw [heq]
  exact ⟨_, rest, .mk hline hfront, by simp⟩

theorem Head.closes {head : Bytes} (h : Head head) (hends : crlf ++ crlf <:+ head) :
    Closes (crlf ++ crlf) head where
  ends := hends
  fresh := by
    intro hinside
    obtain ⟨head', rest, hhead', heq⟩ := exists_head hinside
    have hne : head ≠ [] := by
      rintro rfl
      exact absurd hends (by decide)
    obtain ⟨c, hc⟩ : ∃ c, head = head' ++ (rest ++ [c]) := by
      refine ⟨head.getLast hne, ?_⟩
      rw [← List.append_assoc, ← heq, List.dropLast_append_getLast hne]
    -- The loop would stop behind the first of them.
    have hwhole := h.unread_append []
    rw [List.append_nil, hc, hhead'.unread_append] at hwhole
    exact absurd hwhole (by simp)

/-! ## The body -/

theorem bodyOf_append {head : Bytes} (h : Closes (crlf ++ crlf) head) (rest : Bytes) :
    bodyOf (head ++ rest) = rest := by
  rw [bodyOf, readUntil_closes (by decide) h]

theorem parseRequest_body {rawRequest : Bytes}
    (hpost : (parseRequest rawRequest).method = ofString "POST") :
    (parseRequest rawRequest).body = bodyOf rawRequest := by
  revert hpost
  unfold parseRequest
  cases Text.getlines lf rawRequest with
  | nil =>
    intro hpost
    have hpost : [] = ofString "POST" := hpost
    exact absurd hpost (by decide)
  | cons line lines => exact fun hpost => if_pos hpost

theorem Headers.parseHeaders_append {text : Bytes} (h : Headers text) (rest : Bytes) :
    parseHeaders (Text.getlines lf (text ++ rest)) = parseHeaders (Text.getlines lf text) := by
  suffices hlines : ∀ p : Bytes → Bool, (∀ line, Blank line → p line = false) →
      (Text.getlines lf (text ++ rest)).takeWhile p = (Text.getlines lf text).takeWhile p by
    unfold parseHeaders
    rw [hlines]
    intro line hblank
    rw [decide_eq_false_iff_not, ← not_or, not_not]
    exact hblank
  intro p hp
  induction h with
  | blank hline hblank =>
    rw [List.append_assoc, List.singleton_append, Text.getlines_line lf hline,
      Text.getlines_line lf hline, List.takeWhile_cons_of_neg, List.takeWhile_cons_of_neg] <;>
      simp [hp _ hblank]
  | line hline _ _ ih =>
    rw [List.append_assoc, List.cons_append, Text.getlines_line lf hline,
      Text.getlines_line lf hline, List.takeWhile_cons, List.takeWhile_cons, ih]

theorem Head.parseRequest_append {head : Bytes} (h : Head head) (rest : Bytes) :
    parseRequest (head ++ rest) =
      { parseRequest head with
        body := if (parseRequest head).method = ofString "POST" then bodyOf (head ++ rest)
          else [] } := by
  cases h with
  | @mk line text hline htext =>
    have hlines : Text.getlines lf (line ++ lf :: text ++ rest) =
        line :: Text.getlines lf (text ++ rest) := by
      rw [List.append_assoc, List.cons_append, Text.getlines_line lf hline]
    unfold parseRequest
    rw [hlines, Text.getlines_line lf hline]
    dsimp only
    rw [htext.parseHeaders_append]

theorem parseRequest_append {head : Bytes} (h : Closes (crlf ++ crlf) head) (rest : Bytes) :
    parseRequest (head ++ rest) =
      { parseRequest head with
        body := if (parseRequest head).method = ofString "POST" then rest else [] } := by
  have hbody := bodyOf_append h rest
  obtain ⟨front, behind, hfront, rfl⟩ := exists_head h.ends.isInfix
  rw [List.append_assoc] at hbody ⊢
  rw [hfront.parseRequest_append, hfront.parseRequest_append, hbody]

/-- **The boundary.** The body of a `POST` is what the header loop leaves exactly if the first blank
line, and the line before it, end in CRLF, or nothing follows. -/
theorem boundary_iff (rawRequest : Bytes)
    (hpost : (parseRequest rawRequest).method = ofString "POST") :
    (parseRequest rawRequest).body = unread rawRequest ↔
      ∀ head rest, Head head → rawRequest = head ++ rest → rest ≠ [] → crlf ++ crlf <:+ head := by
  rw [parseRequest_body hpost]
  constructor
  · rintro hbody head rest hhead rfl hne
    rw [hhead.unread_append] at hbody
    unfold bodyOf at hbody
    split at hbody
    · rename_i piece body hread
      obtain ⟨hpiece, heq⟩ := readUntil_some (by decide) hread
      rw [hbody] at heq
      exact List.append_cancel_right heq ▸ hpiece.ends
    · exact absurd hbody.symm hne
  · intro hends
    by_cases hne : unread rawRequest = []
    · -- A body would be left by the loop as well.
      rw [hne]
      unfold bodyOf
      split
      · rename_i piece body hread
        obtain ⟨hpiece, rfl⟩ := readUntil_some (by decide) hread
        obtain ⟨head, rest, hhead, rfl⟩ := exists_head hpiece.ends.isInfix
        rw [List.append_assoc, hhead.unread_append] at hne
        exact (List.append_eq_nil_iff.mp hne).2
      · rfl
    · obtain ⟨head, hhead, heq⟩ := (unread_cases rawRequest).resolve_left hne
      have hcloses := hhead.closes (hends head _ hhead heq hne)
      calc bodyOf rawRequest = bodyOf (head ++ unread rawRequest) := congrArg bodyOf heq
        _ = unread rawRequest := bodyOf_append hcloses _

/-- Line ends as they should be. -/
def crlfRequest : Bytes := ofString "POST http://h/ HTTP/1.1\r\nA: b\r\n\r\nhi"

theorem crlf_boundary :
    (parseRequest crlfRequest).headers.entries = [(ofString "a", ofString "b")] ∧
    (parseRequest crlfRequest).body = ofString "hi" ∧ unread crlfRequest = ofString "hi" ∧
    ∀ head rest, Head head → crlfRequest = head ++ rest → rest ≠ [] → crlf ++ crlf <:+ head := by
  have hbody : (parseRequest crlfRequest).body = ofString "hi" := by decide +kernel
  have hunread : unread crlfRequest = ofString "hi" := by decide +kernel
  exact ⟨by decide +kernel, hbody, hunread,
    (boundary_iff crlfRequest (by decide)).mp (hbody.trans hunread.symm)⟩

/-- Bare line feeds: the loop leaves two bytes, and there is no body. -/
theorem lf_boundary : ¬ ∀ rawRequest, (parseRequest rawRequest).method = ofString "POST" →
    (parseRequest rawRequest).body = unread rawRequest := by
  intro h
  exact absurd (h (ofString "POST http://h/ HTTP/1.1\nA: b\n\nhi") (by decide)) (by decide)

end Proxy
