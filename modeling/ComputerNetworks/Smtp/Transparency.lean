import ComputerNetworks.Smtp.Client

/-!
# The body on the wire

What a server makes of the content that `sendEmail` writes behind the 354 reply.
-/

open Lib Lib.Crlf Lib.Bytes

namespace Smtp

def headerLines (fromEmail toEmail subject : Bytes) : List Bytes :=
  [ofString "From: " ++ fromEmail, ofString "To: " ++ toEmail, ofString "Subject: " ++ subject,
    ofString "Content-Type: text/plain; charset=utf-8"]

def headerBlock (fromEmail toEmail subject : Bytes) : Bytes :=
  (headerLines fromEmail toEmail subject).flatMap (· ++ crlf)

/-- The header block, the blank line and the body with its CRLF. -/
def message (fromEmail toEmail subject body : Bytes) : Bytes :=
  headerBlock fromEmail toEmail subject ++ crlf ++ (body ++ crlf)

theorem emailContent_eq (fromEmail toEmail subject body : Bytes) :
    emailContent fromEmail toEmail subject body =
      message fromEmail toEmail subject body ++ lastLine := by
  rw [emailContent, show ofString "." = [dot] by decide]
  simp [message, headerBlock, headerLines, lastLine]

/-- A header field that is a line of its own. -/
def OneLine (field : Bytes) : Prop := cr ∉ field ∧ lf ∉ field

variable {fromEmail toEmail subject : Bytes}

theorem headerLines_spec (hf : OneLine fromEmail) (ht : OneLine toEmail) (hs : OneLine subject) :
    ∀ l ∈ headerLines fromEmail toEmail subject, cr ∉ l ∧ ¬ [dot] <+: l ++ crlf := by
  have hlit : ∀ name field : Bytes, cr ∉ name → OneLine field → ¬ [dot] <+: name ++ crlf →
      name ≠ [] → cr ∉ name ++ field ∧ ¬ [dot] <+: name ++ field ++ crlf := by
    rintro name field hname hfield hdot hne
    refine ⟨by simpa using ⟨hname, hfield.1⟩, ?_⟩
    cases name with
    | nil => exact absurd rfl hne
    | cons c name => simpa [List.cons_prefix_cons] using hdot
  intro l hl
  simp only [headerLines, List.mem_cons, List.not_mem_nil, or_false] at hl
  rcases hl with rfl | rfl | rfl | rfl
  · exact hlit _ _ (by decide) hf (by decide) (by decide)
  · exact hlit _ _ (by decide) ht (by decide) (by decide)
  · exact hlit _ _ (by decide) hs (by decide) (by decide)
  · decide

theorem dotStartsLine_message (hf : OneLine fromEmail) (ht : OneLine toEmail) (hs : OneLine subject)
    (body : Bytes) :
    DotStartsLine (headerBlock fromEmail toEmail subject ++ crlf ++ body) ↔ DotStartsLine body := by
  have hlines := headerLines_spec hf ht hs
  have run : ∀ lines : List Bytes, (∀ l ∈ lines, cr ∉ l ∧ ¬ [dot] <+: l ++ crlf) → ∀ rest,
      DotStartsLine (lines.flatMap (· ++ crlf) ++ rest) ↔ DotStartsLine rest := by
    intro lines
    induction lines with
    | nil => simp
    | cons line lines ih =>
      intro hl rest
      obtain ⟨hcr, hdot⟩ := hl line (by simp)
      rw [List.flatMap_cons, List.append_assoc,
        dotStartsLine_line (closes_crlf (crlf_not_inside hcr)), or_iff_right hdot]
      exact ih (fun l hl' => hl l (List.mem_cons_of_mem _ hl')) rest
  have hblank := run [[]] (by decide) body
  rw [headerBlock, List.append_assoc, run _ hlines]
  exact hblank

/-- **Transparency.** The server has the message back, with nothing left over that it would read as
commands, exactly when no line of the body starts with a dot: the client stuffs no dots. -/
theorem body_transparent_iff (hf : OneLine fromEmail) (ht : OneLine toEmail) (hs : OneLine subject)
    (body : Bytes) :
    readData (emailContent fromEmail toEmail subject body) =
        some (message fromEmail toEmail subject body, []) ↔
      ¬ DotStartsLine body := by
  rw [emailContent_eq, message, ← List.append_assoc, readData_append,
    dotStartsLine_message hf ht hs]

def smuggled : Bytes := ofString "hi\r\n.\r\nMAIL FROM:<b@x>\r\nDATA"

theorem plain_body_transparent :
    OneLine (ofString "a@x") ∧ OneLine (ofString "b@x") ∧ OneLine (ofString "s") ∧
      (readData (emailContent (ofString "a@x") (ofString "b@x") (ofString "s") (ofString "hi.")) =
        some (message (ofString "a@x") (ofString "b@x") (ofString "s") (ofString "hi."), [])) := by
  have ha : OneLine (ofString "a@x") := by unfold OneLine; decide
  have hb : OneLine (ofString "b@x") := by unfold OneLine; decide
  have hs : OneLine (ofString "s") := by unfold OneLine; decide
  exact ⟨ha, hb, hs, (body_transparent_iff ha hb hs _).mpr (by decide)⟩

/-- The server takes the message to end in the middle of the body, and is left with the rest of it. -/
theorem smuggled_left_over :
    readData (emailContent (ofString "a@x") (ofString "b@x") (ofString "s") smuggled) =
        some (message (ofString "a@x") (ofString "b@x") (ofString "s") (ofString "hi"),
          ofString "MAIL FROM:<b@x>\r\nDATA\r\n.\r\n") ∧
      readData (emailContent (ofString "a@x") (ofString "b@x") (ofString "s") smuggled) ≠
        some (message (ofString "a@x") (ofString "b@x") (ofString "s") smuggled, []) := by
  decide +kernel

end Smtp
