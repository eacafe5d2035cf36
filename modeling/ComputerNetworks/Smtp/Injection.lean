import ComputerNetworks.Lib.Machine
import ComputerNetworks.Smtp.Framing
import ComputerNetworks.Smtp.Lockstep
import ComputerNetworks.Smtp.Transparency

/-!
# What a server hears

A server takes the texts of `sendEmail` line by line. It cannot tell an argument from what stands around
it.
-/

open Lib Lib.Crlf Lib.Bytes Lib.Dialogue

namespace Smtp

/-! ## The server -/

/-- What the next line is to the server: a command, or a line of a message, in its header or behind. -/
inductive Mode where
  | command
  | header
  | body
  deriving DecidableEq

inductive Heard where
  | command (line : Bytes)
  | header (line : Bytes)
  /-- The line between the header and the body. -/
  | blank
  deriving DecidableEq

def Mode.hear : Mode → Bytes → Mode × List Heard
  | .command, line => (if line = ofString "DATA" then .header else .command, [.command line])
  | .header, line =>
    if line = [dot] then (.command, [])
    else if line = [] then (.body, [.blank])
    else (.header, [.header line])
  | .body, line => (if line = [dot] then .command else .body, [])

def server : Machine Mode Bytes Heard := ⟨Mode.hear⟩

/-- What a server hears that splits the text at CRLF. -/
def heard (text : Bytes) : List Heard := (server.run .command (crlfLines text)).2

theorem mem_of_heard {mode : Mode} {lines : List Bytes} {line : Bytes}
    (h : .command line ∈ (server.run mode lines).2 ∨ .header line ∈ (server.run mode lines).2) :
    line ∈ lines := by
  simp only [server.mem_run_iff] at h
  rw [← exists_or] at h
  obtain ⟨front, h⟩ := h
  rw [← exists_or] at h
  obtain ⟨l, h⟩ := h
  rw [← and_or_left] at h
  obtain ⟨hle, hline⟩ := h
  suffices heq : line = l by
    rw [heq]
    exact hle.subset (List.mem_append_right _ List.mem_cons_self)
  change .command line ∈ (Mode.hear _ l).2 ∨ .header line ∈ (Mode.hear _ l).2 at hline
  generalize (server.run mode front).1 = m at hline
  cases m with
  | command => simpa [Mode.hear] using hline
  | header =>
    simp only [Mode.hear] at hline
    split_ifs at hline
    · simp at hline
    · simp at hline
    · simpa using hline
  | body => simp [Mode.hear] at hline

/-- Behind the header, and with its last line, a message says no command exactly if none of its lines is
one dot. -/
theorem body_quiet_iff (lines : List Bytes) :
    (server.run .body (lines ++ [[dot]])).2 = [] ↔ [dot] ∉ lines := by
  induction lines with
  | nil => simp [Machine.run, server, Mode.hear]
  | cons line lines ih =>
    rw [List.mem_cons, not_or, List.cons_append]
    by_cases hdot : line = [dot]
    · -- What follows is a command.
      refine iff_of_false ?_ fun h => h.1 hdot.symm
      cases lines with
      | nil => simp [Machine.run, server, Mode.hear, hdot]
      | cons next lines => simp [Machine.run, server, Mode.hear, hdot]
    · rw [← ih, and_iff_right (Ne.symm hdot)]
      simp [Machine.run, server, Mode.hear, hdot]

/-! ## The texts -/

section Texts

variable (clientDomain fromEmail toEmail subject body : Bytes)

def commandLines : List Bytes :=
  [ofString "EHLO " ++ clientDomain, ofString "MAIL FROM:<" ++ fromEmail ++ ofString ">",
    ofString "RCPT TO:<" ++ toEmail ++ ofString ">", ofString "DATA"]

/-- What the server should hear: four commands, and a message with four header lines. -/
def intended : List Heard :=
  (commandLines clientDomain fromEmail toEmail).map .command ++
    (headerLines fromEmail toEmail subject).map .header ++ [.blank]

/-- All that `sendEmail` writes. -/
def texts : Bytes := ((script clientDomain fromEmail toEmail subject body).map Prod.fst).flatten

/-- The lines that are made of the arguments, up to the blank one. -/
def opening : List Bytes :=
  commandLines clientDomain fromEmail toEmail ++ headerLines fromEmail toEmail subject ++ [[]]

theorem texts_eq : texts clientDomain fromEmail toEmail subject body =
    headerText (opening clientDomain fromEmail toEmail subject) ++ (body ++ crlf ++ lastLine) := by
  simp [texts, script, emailContent_eq, message, headerBlock, headerText, opening, commandLines]

theorem headed_ne {head whole : Bytes} (h : ¬ head <+: whole) (field : Bytes) : head ++ field ≠ whole :=
  fun heq => h ⟨field, heq⟩

theorem run_commands {lines : List Bytes} (h : ∀ l ∈ lines, l ≠ ofString "DATA") :
    server.run .command (lines ++ [ofString "DATA"]) =
      (.header, (lines ++ [ofString "DATA"]).map .command) := by
  induction lines with
  | nil => rfl
  | cons line lines ih =>
    obtain ⟨hline, hlines⟩ := List.forall_mem_cons.mp h
    have hhear : server.step .command line = (.command, [.command line]) := by
      simp [server, Mode.hear, hline]
    rw [List.cons_append, Machine.run, hhear, ih hlines]
    rfl

theorem run_header {lines : List Bytes} (h : ∀ l ∈ lines, l ≠ [dot] ∧ l ≠ []) :
    server.run .header (lines ++ [[]]) = (.body, lines.map .header ++ [.blank]) := by
  induction lines with
  | nil => rfl
  | cons line lines ih =>
    obtain ⟨⟨hdot, hblank⟩, hlines⟩ := List.forall_mem_cons.mp h
    have hhear : server.step .header line = (.header, [.header line]) := by
      simp [server, Mode.hear, hdot, hblank]
    rw [List.cons_append, Machine.run, hhear, ih hlines]
    rfl

theorem run_opening : server.run .command (opening clientDomain fromEmail toEmail subject) =
    (.body, intended clientDomain fromEmail toEmail subject) := by
  have hcommands : ∀ l ∈ [ofString "EHLO " ++ clientDomain,
      ofString "MAIL FROM:<" ++ fromEmail ++ ofString ">",
      ofString "RCPT TO:<" ++ toEmail ++ ofString ">"], l ≠ ofString "DATA" := by
    simp only [List.forall_mem_cons, List.append_assoc]
    exact ⟨headed_ne (by decide) _, headed_ne (by decide) _, headed_ne (by decide) _, by simp⟩
  have hheader : ∀ l ∈ headerLines fromEmail toEmail subject, l ≠ [dot] ∧ l ≠ [] := by
    simp only [headerLines, List.forall_mem_cons]
    exact ⟨⟨headed_ne (by decide) _, headed_ne (by decide) _⟩,
      ⟨headed_ne (by decide) _, headed_ne (by decide) _⟩,
      ⟨headed_ne (by decide) _, headed_ne (by decide) _⟩, by decide, by simp⟩
  rw [opening, List.append_assoc, Machine.run_append, intended, List.append_assoc]
  have hrun := run_commands hcommands
  rw [show [_, _, _] ++ [ofString "DATA"] = commandLines clientDomain fromEmail toEmail from rfl] at hrun
  rw [hrun, run_header hheader]

/-! ## What the server hears -/

/-- The arguments that stand in a line. -/
def arguments : List Bytes := [clientDomain, fromEmail, toEmail, subject]

variable {clientDomain fromEmail toEmail subject}

theorem headed_crlf_iff {head : Bytes} (h : cr ∉ head) (field : Bytes) :
    crlf <:+: head ++ field ↔ crlf <:+: field := by
  induction head with
  | nil => rfl
  | cons c head ih =>
    obtain ⟨hc, hhead⟩ := List.ne_and_not_mem_of_not_mem_cons h
    have hfront : ¬ crlf <+: c :: (head ++ field) := fun hp => hc (List.cons_prefix_cons.mp hp).1
    rw [List.cons_append, List.infix_cons_iff, or_iff_right hfront, ih hhead]

theorem closed_crlf_iff {c : UInt8} (h : c ≠ lf) (field : Bytes) :
    crlf <:+: field ++ [c] ↔ crlf <:+: field := by
  have hends : ¬ crlf <:+ field ++ [c] := by
    rintro ⟨before, heq⟩
    have hlast := congrArg List.getLast? heq
    rw [List.getLast?_append_of_ne_nil _ crlf_ne_nil, List.getLast?_concat] at hlast
    exact h (Option.some.inj hlast).symm
  rw [List.infix_concat_iff, or_iff_right hends]

theorem opening_fresh_iff : (∀ l ∈ opening clientDomain fromEmail toEmail subject, ¬ crlf <:+: l) ↔
    ∀ a ∈ arguments clientDomain fromEmail toEmail subject, ¬ crlf <:+: a := by
  have hclosed : ∀ field, crlf <:+: field ++ ofString ">" ↔ crlf <:+: field :=
    closed_crlf_iff (by decide)
  have hnil : ¬ crlf <:+: [] := by decide
  have hdata : ¬ crlf <:+: ofString "DATA" := by decide
  have htype : ¬ crlf <:+: ofString "Content-Type: text/plain; charset=utf-8" := by decide
  have hehlo := headed_crlf_iff (show cr ∉ ofString "EHLO " by decide)
  have hmail := headed_crlf_iff (show cr ∉ ofString "MAIL FROM:<" by decide)
  have hrcpt := headed_crlf_iff (show cr ∉ ofString "RCPT TO:<" by decide)
  have hfrom := headed_crlf_iff (show cr ∉ ofString "From: " by decide)
  have hto := headed_crlf_iff (show cr ∉ ofString "To: " by decide)
  have hsubject := headed_crlf_iff (show cr ∉ ofString "Subject: " by decide)
  simp only [opening, commandLines, headerLines, arguments, List.forall_mem_append, List.forall_mem_cons,
    List.append_assoc, hehlo, hmail, hrcpt, hfrom, hto, hsubject, hclosed, hdata, htype, hnil,
    not_false_eq_true, List.not_mem_nil, IsEmpty.forall_iff, implies_true, and_true]
  -- The sender and the receiver stand in two lines each.
  tauto

theorem heard_texts (h : ∀ l ∈ opening clientDomain fromEmail toEmail subject, ¬ crlf <:+: l) :
    heard (texts clientDomain fromEmail toEmail subject body) =
      intended clientDomain fromEmail toEmail subject ++
        (server.run .body (crlfLines (body ++ crlf) ++ [[dot]])).2 := by
  have hlast : crlfLines lastLine = [[dot]] := by decide
  rw [heard, texts_eq, crlfLines_headerText h, crlfLines_append, hlast, Machine.run_append, run_opening]

theorem heard_texts_iff : heard (texts clientDomain fromEmail toEmail subject body) =
      intended clientDomain fromEmail toEmail subject ↔
    (∀ a ∈ arguments clientDomain fromEmail toEmail subject, ¬ crlf <:+: a) ∧
      [dot] ∉ crlfLines (body ++ crlf) := by
  rw [← opening_fresh_iff, ← body_quiet_iff]
  constructor
  · intro h
    have hfresh : ∀ l ∈ opening clientDomain fromEmail toEmail subject, ¬ crlf <:+: l := by
      intro l hl
      rw [opening, List.mem_append, List.mem_append, List.mem_singleton] at hl
      have hheard : ∀ e ∈ intended clientDomain fromEmail toEmail subject,
          e ∈ heard (texts clientDomain fromEmail toEmail subject body) := fun e he => h ▸ he
      rcases hl with (hl | hl) | rfl
      · refine crlfLines_fresh (mem_of_heard (.inl (hheard _ ?_)))
        simp [intended, hl]
      · refine crlfLines_fresh (mem_of_heard (.inr (hheard _ ?_)))
        simp [intended, hl]
      · exact not_infix_nil crlf_ne_nil
    refine ⟨hfresh, ?_⟩
    rw [heard_texts body hfresh] at h
    exact List.append_right_eq_self.mp h
  · rintro ⟨hfresh, hquiet⟩
    rw [heard_texts body hfresh, hquiet, List.append_nil]

end Texts

/-! ## A server that answers -/

/-- What is unread are replies with these codes, and as many writes succeed. -/
def Answers : List Bytes → List (Option UInt8) → List Int → Prop
  | [], _, _ => True
  | _ :: _, _, [] => False
  | code :: codes, unread, sent :: outcomes =>
    0 ≤ sent ∧ ∃ response behind, receiveFrom [] [] unread = (some response, behind) ∧
      StartsWith code response ∧ Answers codes behind outcomes

def Answering (codes : List Bytes) (s : Client) : Prop := Answers codes s.unread s.outcomes

theorem answers_stream {codes : List Bytes} {replies : List Reply}
    (h : List.Forall₂ (fun code reply => StartsWith code reply.bytes) codes replies)
    (rest : List (Option UInt8)) :
    ∀ {outcomes : List Int}, codes.length ≤ outcomes.length → (∀ sent ∈ outcomes, 0 ≤ sent) →
      Answers codes ((stream replies).map some ++ rest) outcomes := by
  induction h with
  | nil => intro outcomes _ _; trivial
  | @cons code reply codes replies hcode _ ih =>
    intro outcomes hlength hsents
    cases outcomes with
    | nil => cases hlength
    | cons sent outcomes =>
      obtain ⟨hsent, hsents⟩ := List.forall_mem_cons.mp hsents
      refine ⟨hsent, reply.bytes, _, ?_, hcode, ih (Nat.le_of_succ_le_succ hlength) hsents⟩
      rw [stream, List.flatMap_cons, List.map_append, List.append_assoc]
      exact receiveFrom_reply reply.continuations reply.code reply.last _ []

theorem answering_cons {code : Bytes} {codes : List Bytes} {s : Client}
    (h : Answering (code :: codes) s) (hcode : code.length = 3) (text : Bytes) :
    0 ≤ (write text s).1 ∧
      checkResponseCode (receiveResponse (write text s).2).1 code = true ∧
      Answering codes (receiveResponse (write text s).2).2 := by
  unfold Answering at h
  cases houtcomes : s.outcomes with
  | nil =>
    rw [houtcomes] at h
    exact h.elim
  | cons sent outcomes =>
    rw [houtcomes] at h
    obtain ⟨hsent, response, behind, hread, hresponse, hrest⟩ := h
    have hwrite : write text s = (sent, { s with
        outcomes := outcomes, trace := s.trace ++ [.wrote text sent] }) := by
      rw [write, houtcomes]
    have hreceive : receiveResponse (write text s).2 = (response, { (write text s).2 with
        unread := behind, trace := (write text s).2.trace ++ [.received response] }) := by
      rw [receiveResponse, show (write text s).2.unread = s.unread by rw [hwrite], hread]
    rw [hreceive, hwrite]
    exact ⟨hsent, (checkResponseCode_iff hcode).mpr hresponse, hrest⟩

theorem speak_answered {rest : List (Bytes × Bytes)} (hcodes : ∀ p ∈ rest, p.2.length = 3) :
    ∀ {s : Client}, Answering (rest.map Prod.snd) s → (speak rest s).1 = true := by
  induction rest with
  | nil => intro s _; rfl
  | cons step rest ih =>
    intro s hs
    obtain ⟨hcode, hcodes⟩ := List.forall_mem_cons.mp hcodes
    obtain ⟨hsent, hreply, hs⟩ := answering_cons hs hcode step.1
    rw [speak_cons, if_neg (Int.not_lt.mpr hsent), if_pos hreply]
    exact ih hcodes hs

/-- The codes that `sendEmail` asks for. -/
def expectedCodes : List Bytes :=
  [ofString "250", ofString "250", ofString "250", ofString "354", ofString "250"]

theorem sendEmail_answered {s : Client} (hs : Answering expectedCodes s)
    (fromEmail toEmail subject body : Bytes) :
    (sendEmail fromEmail toEmail subject body s).1 = true ∧
      ∃ part, (sendEmail fromEmail toEmail subject body s).2.trace = s.trace ++ part ∧
        (commands part).flatten = texts s.clientDomain fromEmail toEmail subject body := by
  have hok : (sendEmail fromEmail toEmail subject body s).1 = true := by
    rw [sendEmail_eq]
    refine speak_answered ?_ hs
    simp only [script, List.forall_mem_cons]
    decide
  obtain ⟨part, htrace, htalk⟩ := sendEmail_talks fromEmail toEmail subject body s
  rw [hok] at htalk
  exact ⟨hok, part, htrace, congrArg List.flatten htalk.commands_eq⟩

/-! ## Arguments -/

/-- `sendEmail` has failed, and one of its arguments is in nothing that it wrote. -/
def Refused (args : List Bytes) (result : Bool) (part : List Event) : Prop :=
  result = false ∧ ∃ a ∈ args, ∀ text ∈ commands part, ¬ a <:+: text

/-- The server hears of the arguments what it should, or they are refused. -/
def ArgumentsKept (fromEmail toEmail subject body : Bytes) (s : Client) : Prop :=
  ∃ part, (sendEmail fromEmail toEmail subject body s).2.trace = s.trace ++ part ∧
    (heard (commands part).flatten = intended s.clientDomain fromEmail toEmail subject ∨
      Refused (arguments s.clientDomain fromEmail toEmail subject ++ [body])
        (sendEmail fromEmail toEmail subject body s).1 part)

theorem argumentsKept_iff_heard {s : Client} (hs : Answering expectedCodes s)
    (fromEmail toEmail subject body : Bytes) :
    ArgumentsKept fromEmail toEmail subject body s ↔
      heard (texts s.clientDomain fromEmail toEmail subject body) =
        intended s.clientDomain fromEmail toEmail subject := by
  obtain ⟨hok, part, htrace, htexts⟩ := sendEmail_answered hs fromEmail toEmail subject body
  constructor
  · rintro ⟨part', htrace', hheard | ⟨hfailed, -⟩⟩
    · rw [htrace, List.append_cancel_left_eq] at htrace'
      rwa [← htrace', htexts] at hheard
    · rw [hok] at hfailed
      cases hfailed
  · intro hheard
    exact ⟨part, htrace, .inl (htexts ▸ hheard)⟩

/-- **Injection.** The arguments are kept exactly when no line is made of two, and no line of the body is
one dot: whatever there is, the client sends it. -/
theorem argumentsKept_iff (s : Client) (hs : Answering expectedCodes s)
    (fromEmail toEmail subject body : Bytes) :
    ArgumentsKept fromEmail toEmail subject body s ↔
      (∀ a ∈ arguments s.clientDomain fromEmail toEmail subject, ¬ crlf <:+: a) ∧
        [dot] ∉ crlfLines (body ++ crlf) := by
  rw [argumentsKept_iff_heard hs, heard_texts_iff]

def okReply : Reply := ⟨[], ⟨0x32, 0x35, 0x30, by decide⟩, none⟩

def goAhead : Reply := ⟨[], ⟨0x33, 0x35, 0x34, by decide⟩, none⟩

/-- A client whose server answers, with the result of its last write. -/
def answered (sent : Int) : Client where
  sockfd := 3
  clientDomain := ofString "h"
  unread := (stream [okReply, okReply, okReply, goAhead, okReply]).map some
  outcomes := [8, 17, 15, 6, sent]
  trace := []

theorem answering_answered {sent : Int} (h : 0 ≤ sent) : Answering expectedCodes (answered sent) := by
  have hok : StartsWith (ofString "250") okReply.bytes := by unfold StartsWith; decide
  have hgo : StartsWith (ofString "354") goAhead.bytes := by unfold StartsWith; decide
  have hstream := answers_stream (.cons hok (.cons hok (.cons hok (.cons hgo (.cons hok .nil))))) []
    (show 5 ≤ [8, 17, 15, 6, sent].length from le_rfl) (by simpa using h)
  rwa [List.append_nil] at hstream

theorem plain_argumentsKept :
    Answering expectedCodes (answered 82) ∧
      ArgumentsKept (ofString "a@x") (ofString "b@x") (ofString "s") (ofString "hi") (answered 82) := by
  have hs : Answering expectedCodes (answered 82) := answering_answered (by decide)
  exact ⟨hs, (argumentsKept_iff _ hs _ _ _ _).mpr (by decide +kernel)⟩

/-- The subject brings a header line of its own. -/
theorem subject_adds_header :
    Answering expectedCodes (answered 92) ∧
      ¬ ArgumentsKept (ofString "a@x") (ofString "b@x") (ofString "s\r\nBcc: c@x") (ofString "hi")
        (answered 92) := by
  have hs : Answering expectedCodes (answered 92) := answering_answered (by decide)
  refine ⟨hs, ?_⟩
  rw [argumentsKept_iff_heard hs]
  decide +kernel

end Smtp
