import ComputerNetworks.Lib.Attended
import ComputerNetworks.Lib.Fields
import ComputerNetworks.Smtp.Injection

/-!
# The mail that arrives

The client before a server that takes mail, and may refuse any command and any mail. The connection may
break anywhere, and a write may get out in part.
-/

open Lib Lib.Crlf Lib.Bytes Lib.Dialogue

namespace Smtp

/-! ## The mailbox -/

structure Mail where
  sender : Bytes
  recipients : List Bytes
  content : Bytes
  deriving DecidableEq

/-- What the server has of the next mail. -/
inductive Stage where
  | ready
  | addressed (sender : Bytes) (recipients : List Bytes)
  | reading (sender : Bytes) (recipients : List Bytes) (lines : List Bytes)
  deriving DecidableEq

structure Mailbox where
  stage : Stage
  stored : List Mail
  deriving DecidableEq

inductive Command where
  | ehlo
  | mail (path : Bytes)
  | rcpt (path : Bytes)
  | data
  | quit
  | unknown
  deriving DecidableEq

def closing : UInt8 := 0x3E

/-- What stands in the angle brackets of a command, with nothing behind them. -/
def pathOf (head line : Bytes) : Option Bytes :=
  if head <+: line then
    if (line.drop head.length).dropWhile (· ≠ closing) = [closing] then
      some ((line.drop head.length).takeWhile (· ≠ closing))
    else none
  else none

def parseCommand (line : Bytes) : Command :=
  if ofString "EHLO " <+: line then .ehlo
  else if line = ofString "DATA" then .data
  else if line = ofString "QUIT" then .quit
  else
    match pathOf (ofString "MAIL FROM:<") line, pathOf (ofString "RCPT TO:<") line with
    | some path, _ => .mail path
    | none, some path => .rcpt path
    | none, none => .unknown

def Mailbox.obey (box : Mailbox) : Command → Mailbox × Bytes
  | .ehlo => ({ box with stage := .ready }, ofString "250")
  | .mail path => ({ box with stage := .addressed path [] }, ofString "250")
  | .rcpt path =>
    match box.stage with
    | .addressed sender recipients =>
      ({ box with stage := .addressed sender (recipients ++ [path]) }, ofString "250")
    | _ => (box, ofString "503")
  | .data =>
    match box.stage with
    | .addressed sender (recipient :: recipients) =>
      ({ box with stage := .reading sender (recipient :: recipients) [] }, ofString "354")
    | _ => (box, ofString "503")
  | .quit => (box, ofString "221")
  | .unknown => (box, ofString "500")

/-- `willing` says whether the server takes the line, which may be the last one of a mail. -/
def Mailbox.hear (willing : Mailbox → Bytes → Bool) (box : Mailbox) (line : Bytes) : Mailbox × List Bytes :=
  match box.stage with
  | .reading sender recipients lines =>
    if line = [dot] then
      if willing box line then
        (⟨.ready, box.stored ++ [⟨sender, recipients, headerText lines⟩]⟩, [ofString "250"])
      else (⟨.ready, box.stored⟩, [ofString "554"])
    else (⟨.reading sender recipients (lines ++ [unstuff line]), box.stored⟩, [])
  | _ =>
    if willing box line then ((box.obey (parseCommand line)).1, [(box.obey (parseCommand line)).2])
    else (box, [ofString "550"])

def mailbox (willing : Mailbox → Bytes → Bool) : Machine Mailbox Bytes Bytes := ⟨Mailbox.hear willing⟩

/-- A server reads bytes, and makes lines of them. -/
def mailServer (willing : Mailbox → Bytes → Bool) : Machine (Bytes × Mailbox) UInt8 Bytes :=
  splitting.andThen (mailbox willing)

instance (code response : Bytes) : Decidable (StartsWith code response) :=
  inferInstanceAs (Decidable (code <+: response))

/-- An empty response is none. -/
abbrev Attended (willing : Mailbox → Bytes → Bool) :=
  Attends (mailServer willing) StartsWith (fun response => response = [])

section Server

variable {willing : Mailbox → Bytes → Bool}

theorem mailServer_whole (box : Mailbox) (text : Bytes) :
    (mailServer willing).run ([], box) (text ++ crlf) =
      (([], ((mailbox willing).run box (crlfLines (text ++ crlf))).1),
        ((mailbox willing).run box (crlfLines (text ++ crlf))).2) := by
  obtain ⟨last, hlast⟩ := splitting_crlf [] text
  rw [mailServer, Machine.run_andThen, splitting_lines]
  simp only [hlast]

variable (willing) in
theorem mailServer_part (box : Mailbox) {part text : Bytes} (hpart : part <+: text ++ crlf)
    (hne : part ≠ text ++ crlf) : ∃ front, front <+: (crlfLines (text ++ crlf)).dropLast ∧
      ((mailServer willing).run ([], box) part).1.2 = ((mailbox willing).run box front).1 ∧
      ((mailServer willing).run ([], box) part).2 = ((mailbox willing).run box front).2 := by
  refine ⟨crlfLines part, crlfLines_part hpart hne, ?_⟩
  rw [mailServer, Machine.run_andThen, splitting_lines]
  exact ⟨rfl, rfl⟩

/-! ## What stays -/

theorem obey_spec (box : Mailbox) (command : Command) :
    (box.obey command).1.stored = box.stored ∧ (box.obey command).2.length = 3 := by
  cases command with
  | rcpt path =>
    simp only [Mailbox.obey]
    split <;> exact ⟨rfl, rfl⟩
  | data =>
    simp only [Mailbox.obey]
    split <;> exact ⟨rfl, rfl⟩
  | ehlo | mail path | quit | unknown => exact ⟨rfl, rfl⟩

/-- Mail is stored at a line that is one dot, and nowhere else. -/
theorem hear_stored {box : Mailbox} {line : Bytes} (h : line ≠ [dot]) :
    (box.hear willing line).1.stored = box.stored := by
  unfold Mailbox.hear
  split
  · rw [if_neg h]
  · split
    · exact (obey_spec box _).1
    · rfl

theorem run_stored {lines : List Bytes} (h : ∀ l ∈ lines, l ≠ [dot]) :
    ∀ box : Mailbox, ((mailbox willing).run box lines).1.stored = box.stored := by
  induction lines with
  | nil => intro box; rfl
  | cons line lines ih =>
    intro box
    obtain ⟨hline, hlines⟩ := List.forall_mem_cons.mp h
    rw [Machine.run, ih hlines]
    exact hear_stored hline

theorem splitting_quiet {text : Bytes} (h : lf ∉ text) : ∀ line,
    splitting.run line text = (line ++ text, []) := by
  induction text with
  | nil => intro line; rw [List.append_nil]; rfl
  | cons c text ih =>
    intro line
    obtain ⟨hc, htext⟩ := List.ne_and_not_mem_of_not_mem_cons h
    have hstep : splitting.step line c = (line ++ [c], []) := by
      refine if_neg ?_
      rintro ⟨before, heq⟩
      have hlast := congrArg List.getLast? heq
      simp only [crlf, List.getLast?_append, List.getLast?_cons_cons, List.getLast?_singleton,
        Option.some_or, Option.some.injEq] at hlast
      exact hc hlast
    rw [Machine.run, hstep, ih htext]
    simp

theorem quit_stored {part : Bytes} (h : part <+: quit) (s : Bytes × Mailbox) :
    ((mailServer willing).run s part).1.2.stored = s.2.stored := by
  rw [mailServer, Machine.run_andThen]
  refine run_stored ?_ s.2
  have hquit : quit = ofString "QUIT\r" ++ [lf] := by decide
  have hlf : lf ∉ ofString "QUIT\r" := by decide
  rw [hquit, List.prefix_concat_iff] at h
  rcases h with rfl | h
  · have hstep : splitting.step (s.1 ++ ofString "QUIT\r") lf = ([], [s.1 ++ ofString "QUIT"]) := by
      have hends : s.1 ++ ofString "QUIT\r" ++ [lf] = s.1 ++ ofString "QUIT" ++ crlf := by
        rw [List.append_assoc, List.append_assoc]
        rfl
      rw [splitting]
      simp only [hends]
      rw [if_pos (List.suffix_append _ _)]
      simp [crlf]
    rw [Machine.run_snoc, splitting_quiet hlf, hstep]
    simp only [List.nil_append, List.forall_mem_singleton]
    intro hdot
    have hlength := congrArg List.length hdot
    rw [List.length_append, show (ofString "QUIT").length = 4 from rfl, List.length_singleton] at hlength
    omega
  · rw [splitting_quiet fun hmem => hlf (h.subset hmem)]
    simp

/-! ## The stages of a mail -/

theorem StartsWith.eq_of_length {code code' response : Bytes} (h : StartsWith code response)
    (h' : StartsWith code' response) (hlength : code.length = code'.length) : code = code' :=
  List.IsPrefix.eq_of_length (List.prefix_of_prefix_length_le h h' hlength.le) hlength

theorem not_startsWith_nil {code : Bytes} (hcode : code.length = 3) : ¬ StartsWith code [] := by
  intro h
  rw [List.prefix_nil.mp h] at hcode
  cases hcode

/-- The states in which a server may be left, and those at the end. -/
abbrev Comes (willing : Mailbox → Bytes → Bool) (mail : Mail) :=
  Stages (mailServer willing) StartsWith (fun response => response = [])
    (fun s => s.2.stored = []) fun s => s.2.stored = [mail]

variable {mail : Mail}

theorem Comes.text {box : Mailbox} {text k : Bytes} (code : Bytes) {script : List (Bytes × Bytes)}
    (hdots : ∀ l ∈ (crlfLines (text ++ crlf)).dropLast, l ≠ [dot])
    (hquiet : ∀ front, front <+: (crlfLines (text ++ crlf)).dropLast →
      ((mailbox willing).run box front).2 = [])
    (hbox : box.stored = []) (hcode : ((mailbox willing).run box (crlfLines (text ++ crlf))).2 = [code])
    (hlength : code.length = 3) (hk : k.length = 3)
    (hother : code ≠ k → ((mailbox willing).run box (crlfLines (text ++ crlf))).1.stored = [])
    (hmore : code = k →
      Comes willing mail ([], ((mailbox willing).run box (crlfLines (text ++ crlf))).1) script) :
    Comes willing mail ([], box) ((text ++ crlf, k) :: script) := by
  refine .next code ?_ ?_ ?_ ?_ ?_ ?_
  · intro part hpart hne
    obtain ⟨front, hfront, hstate, hout⟩ := mailServer_part willing box hpart hne
    rw [hout, hstate, run_stored fun l hl => hdots l (hfront.subset hl)]
    exact ⟨hquiet front hfront, hbox⟩
  · rw [mailServer_whole, hcode]
  · intro r hr hr'
    exact hr.eq_of_length hr' (hlength.trans hk.symm)
  · rintro r rfl
    exact not_startsWith_nil hk
  · rw [mailServer_whole]
    exact hother
  · rw [mailServer_whole]
    exact hmore

theorem Comes.command {box : Mailbox} {line k : Bytes} {script : List (Bytes × Bytes)}
    (hline : ¬ crlf <:+: line) (hk : k.length = 3) (hrefusal : k ≠ ofString "550")
    (hstage : box.stage = .ready ∨ ∃ sender recipients, box.stage = .addressed sender recipients)
    (hbox : box.stored = [])
    (hmore : (box.obey (parseCommand line)).2 = k →
      Comes willing mail ([], (box.obey (parseCommand line)).1) script) :
    Comes willing mail ([], box) ((line ++ crlf, k) :: script) := by
  have hlines : crlfLines (line ++ crlf) = [line] := by
    have hread := crlfLines_line hline []
    rwa [List.append_nil] at hread
  have hhear : box.hear willing line =
      if willing box line then ((box.obey (parseCommand line)).1, [(box.obey (parseCommand line)).2])
      else (box, [ofString "550"]) := by
    unfold Mailbox.hear
    rcases hstage with hready | ⟨sender, recipients, haddressed⟩
    · rw [hready]
    · rw [haddressed]
  have hrun : (mailbox willing).run box [line] = box.hear willing line := by
    simp [Machine.run, mailbox]
  have hnone : ([line] : List Bytes).dropLast = [] := rfl
  by_cases hwilling : willing box line = true
  · rw [if_pos hwilling] at hhear
    apply Comes.text (box.obey (parseCommand line)).2
    · simp [hlines]
    · intro front hfront
      rw [hlines, hnone, List.prefix_nil] at hfront
      rw [hfront]
      rfl
    · exact hbox
    · rw [hlines, hrun, hhear]
    · exact (obey_spec box _).2
    · exact hk
    · intro _
      rw [hlines, hrun, hhear, (obey_spec box _).1, hbox]
    · rw [hlines, hrun, hhear]
      exact hmore
  · rw [if_neg hwilling] at hhear
    apply Comes.text (ofString "550")
    · simp [hlines]
    · intro front hfront
      rw [hlines, hnone, List.prefix_nil] at hfront
      rw [hfront]
      rfl
    · exact hbox
    · rw [hlines, hrun, hhear]
    · rfl
    · exact hk
    · intro _
      rw [hlines, hrun, hhear, hbox]
    · intro heq
      exact absurd heq.symm hrefusal

theorem run_reading (sender : Bytes) (recipients : List Bytes) (stored : List Mail) {lines : List Bytes}
    (h : ∀ l ∈ lines, ¬ [dot] <+: l) : ∀ taken,
    (mailbox willing).run ⟨.reading sender recipients taken, stored⟩ lines =
      (⟨.reading sender recipients (taken ++ lines), stored⟩, []) := by
  induction lines with
  | nil => intro taken; rw [List.append_nil]; rfl
  | cons line lines ih =>
    intro taken
    obtain ⟨hline, hlines⟩ := List.forall_mem_cons.mp h
    have hne : line ≠ [dot] := by
      rintro rfl
      exact hline (List.prefix_refl _)
    have hstep : (mailbox willing).step ⟨.reading sender recipients taken, stored⟩ line =
        (⟨.reading sender recipients (taken ++ [line]), stored⟩, []) := by
      simp only [mailbox, Mailbox.hear, if_neg hne, unstuff_of_not_dot hline]
    rw [Machine.run, hstep, ih hlines]
    simp

theorem Comes.content {sender : Bytes} {recipients lines : List Bytes} {text : Bytes}
    (hlines : crlfLines (text ++ crlf) = lines ++ [[dot]]) (hdots : ∀ l ∈ lines, ¬ [dot] <+: l)
    (hmail : mail = ⟨sender, recipients, headerText lines⟩) :
    Comes willing mail ([], ⟨.reading sender recipients [], []⟩) [(text ++ crlf, ofString "250")] := by
  let last : Mailbox := ⟨.reading sender recipients lines, []⟩
  have hrun : (mailbox willing).run ⟨.reading sender recipients [], []⟩ (crlfLines (text ++ crlf)) =
      last.hear willing [dot] := by
    rw [hlines, Machine.run_snoc, run_reading sender recipients [] hdots]
    rfl
  have hhear : last.hear willing [dot] =
      if willing last [dot] then (⟨.ready, [mail]⟩, [ofString "250"])
      else (⟨.ready, []⟩, [ofString "554"]) := by
    rw [hmail]
    rfl
  have hfront : (crlfLines (text ++ crlf)).dropLast = lines := by rw [hlines, List.dropLast_concat]
  have hne : ∀ l ∈ lines, l ≠ [dot] := by
    rintro l hl rfl
    exact hdots _ hl (List.prefix_refl _)
  have hquiet : ∀ front, front <+: lines →
      ((mailbox willing).run ⟨.reading sender recipients [], []⟩ front).2 = [] := by
    intro front hle
    rw [run_reading sender recipients [] fun l hl => hdots l (hle.subset hl)]
  rw [← hfront] at hne hquiet
  by_cases hwilling : willing last [dot] = true
  · rw [hhear, if_pos hwilling] at hrun
    apply Comes.text (ofString "250") hne hquiet rfl
    · rw [hrun]
    · rfl
    · rfl
    · intro hother
      exact absurd rfl hother
    · intro _
      rw [hrun]
      exact .done rfl
  · rw [hhear, if_neg hwilling] at hrun
    apply Comes.text (ofString "554") hne hquiet rfl
    · rw [hrun]
    · rfl
    · rfl
    · intro _
      rw [hrun]
    · intro heq
      exact absurd heq (by decide)

/-! ## What the client says -/

theorem pathOf_headed (head path : Bytes) :
    (closing ∉ path → pathOf head (head ++ path ++ ofString ">") = some path) ∧
      (closing ∈ path → pathOf head (head ++ path ++ ofString ">") = none) := by
  have hclosing : ofString ">" = [closing] := by decide
  have hspan : ∀ {front rest : Bytes}, closing ∉ front →
      (front ++ closing :: rest).takeWhile (· ≠ closing) = front ∧
        (front ++ closing :: rest).dropWhile (· ≠ closing) = closing :: rest := by
    intro front rest hfront
    refine Fields.span_append (fun c hc => ?_) fun c hc => ?_
    · exact decide_eq_true fun heq => hfront (heq ▸ hc)
    · obtain rfl : closing = c := by simpa using hc
      decide
  rw [pathOf, if_pos ((List.prefix_append head path).trans (List.prefix_append _ _)), List.append_assoc,
    List.drop_left, hclosing]
  constructor
  · intro hpath
    rw [(hspan hpath).1, (hspan hpath).2, if_pos rfl]
  · -- What is behind the first bracket is not the end of the line.
    intro hpath
    obtain ⟨front, behind, rfl, hfront⟩ := List.eq_append_cons_of_mem hpath
    rw [if_neg]
    rw [List.append_assoc, List.cons_append, (hspan hfront).2]
    simp

theorem not_prefix_headed {head head' : Bytes} (h : ¬ (head <+: head' ∨ head' <+: head)) (field : Bytes) :
    ¬ head' <+: head ++ field :=
  fun hp => h (List.prefix_or_prefix_of_prefix (List.prefix_append head field) hp)

theorem pathOf_none {head line : Bytes} (h : ¬ head <+: line) : pathOf head line = none := if_neg h

theorem parseCommand_ehlo (clientDomain : Bytes) :
    parseCommand (ofString "EHLO " ++ clientDomain) = .ehlo := if_pos (List.prefix_append _ _)

theorem parseCommand_path {head : Bytes} {command : Bytes → Command}
    (h : head = ofString "MAIL FROM:<" ∧ command = .mail ∨ head = ofString "RCPT TO:<" ∧ command = .rcpt)
    (path : Bytes) :
    (closing ∉ path → parseCommand (head ++ path ++ ofString ">") = command path) ∧
      (closing ∈ path → parseCommand (head ++ path ++ ofString ">") = .unknown) := by
  have hheads : ∀ whole ∈ [ofString "EHLO ", ofString "DATA", ofString "QUIT"],
      ¬ (head <+: whole ∨ whole <+: head) := by
    obtain ⟨rfl, -⟩ | ⟨rfl, -⟩ := h <;> decide
  simp only [List.forall_mem_cons] at hheads
  obtain ⟨hehlo, hdata, hquit, -⟩ := hheads
  have hpath := pathOf_headed head path
  rw [List.append_assoc] at hpath ⊢
  rw [parseCommand, if_neg (not_prefix_headed hehlo _), if_neg (headed_ne (fun hp => hdata (.inl hp)) _),
    if_neg (headed_ne (fun hp => hquit (.inl hp)) _)]
  obtain ⟨rfl, rfl⟩ | ⟨rfl, rfl⟩ := h
  · rw [@pathOf_none (ofString "RCPT TO:<") _ (not_prefix_headed (by decide) _)]
    exact ⟨fun hplain => by rw [hpath.1 hplain], fun hbracket => by rw [hpath.2 hbracket]⟩
  · rw [@pathOf_none (ofString "MAIL FROM:<") _ (not_prefix_headed (by decide) _)]
    exact ⟨fun hplain => by rw [hpath.1 hplain], fun hbracket => by rw [hpath.2 hbracket]⟩

end Server

/-! ## The mail -/

section Mail

variable {willing : Mailbox → Bytes → Bool} (clientDomain fromEmail toEmail subject body : Bytes)

theorem emailContent_crlf :
    emailContent fromEmail toEmail subject body = message fromEmail toEmail subject body ++ [dot] ++ crlf := by
  rw [emailContent_eq, lastLine, List.append_assoc]
  rfl

def mailLines : List Bytes := headerLines fromEmail toEmail subject ++ [[]] ++ crlfLines (body ++ crlf)

theorem message_headerText :
    message fromEmail toEmail subject body = headerText (mailLines fromEmail toEmail subject body) := by
  rw [mailLines, headerText, List.flatMap_append, ← headerText, ← headerText, headerText_crlfLines]
  simp [message, headerBlock, headerText]

variable {clientDomain fromEmail toEmail subject body}

theorem crlfLines_emailContent (h : ∀ l ∈ opening clientDomain fromEmail toEmail subject, ¬ crlf <:+: l) :
    crlfLines (message fromEmail toEmail subject body ++ [dot] ++ crlf) =
      mailLines fromEmail toEmail subject body ++ [[dot]] := by
  have hlast : crlfLines ([dot] ++ crlf) = [[dot]] := by decide
  have hheader : ∀ l ∈ headerLines fromEmail toEmail subject ++ [[]], ¬ crlf <:+: l := by
    intro l hl
    apply h l
    rw [opening, List.append_assoc]
    exact List.mem_append_right _ hl
  have htext : message fromEmail toEmail subject body ++ [dot] ++ crlf =
      headerText (headerLines fromEmail toEmail subject ++ [[]]) ++ (body ++ crlf ++ ([dot] ++ crlf)) := by
    simp [message, headerBlock, headerText]
  rw [htext, crlfLines_headerText hheader, crlfLines_append, hlast, mailLines, List.append_assoc _ _ [[dot]]]

theorem mailLines_not_dot (hbody : ¬ DotStartsLine body) :
    ∀ l ∈ mailLines fromEmail toEmail subject body, ¬ [dot] <+: l := by
  intro l hl
  rw [mailLines, List.mem_append, List.mem_append, List.mem_singleton] at hl
  rcases hl with (hl | rfl) | hl
  · simp only [headerLines, List.mem_cons, List.not_mem_nil, or_false] at hl
    rcases hl with rfl | rfl | rfl | rfl
    · exact not_prefix_headed (by decide) _
    · exact not_prefix_headed (by decide) _
    · exact not_prefix_headed (by decide) _
    · decide
  · decide
  · exact not_dot_of_mem hbody hl

theorem comes_script (hplain : ∀ a ∈ arguments clientDomain fromEmail toEmail subject, ¬ crlf <:+: a)
    (hbody : ¬ DotStartsLine body) :
    Comes willing ⟨fromEmail, [toEmail], message fromEmail toEmail subject body⟩ ([], ⟨.ready, []⟩)
      (script clientDomain fromEmail toEmail subject body) := by
  have hopening := opening_fresh_iff.mpr hplain
  have hline : ∀ l ∈ commandLines clientDomain fromEmail toEmail, ¬ crlf <:+: l := by
    intro l hl
    apply hopening l
    rw [opening, List.append_assoc]
    exact List.mem_append_left _ hl
  simp only [commandLines, List.forall_mem_cons] at hline
  obtain ⟨hehlo, hmail, hrcpt, hdata, -⟩ := hline
  refine Comes.command hehlo rfl (by decide) (.inl rfl) rfl fun _ => ?_
  rw [parseCommand_ehlo]
  refine Comes.command hmail rfl (by decide) (.inl rfl) rfl fun htaken => ?_
  have hfrom : closing ∉ fromEmail := by
    intro hbracket
    rw [(parseCommand_path (.inl ⟨rfl, rfl⟩) _).2 hbracket] at htaken
    exact absurd (show ofString "500" = ofString "250" from htaken) (by decide)
  rw [(parseCommand_path (.inl ⟨rfl, rfl⟩) _).1 hfrom]
  refine Comes.command hrcpt rfl (by decide) (.inr ⟨_, _, rfl⟩) rfl fun htaken => ?_
  have hto : closing ∉ toEmail := by
    intro hbracket
    rw [(parseCommand_path (.inr ⟨rfl, rfl⟩) _).2 hbracket] at htaken
    exact absurd (show ofString "500" = ofString "250" from htaken) (by decide)
  rw [(parseCommand_path (.inr ⟨rfl, rfl⟩) _).1 hto]
  refine Comes.command hdata rfl (by decide) (.inr ⟨_, _, rfl⟩) rfl fun _ => ?_
  rw [emailContent_crlf]
  apply Comes.content (crlfLines_emailContent hopening) (mailLines_not_dot hbody)
  rw [message_headerText]

end Mail

/-! ## The client before the server -/

theorem main_code (dial : Dial) (fromEmail toEmail subject body : Bytes) (s : Client) :
    (main dial fromEmail toEmail subject body s).1 =
      if (session dial fromEmail toEmail subject body s).1 then 0 else 1 := by
  rw [session_apply, main, bind_apply]
  cases (connect dial s).1 with
  | false => rfl
  | true =>
    rw [if_neg (by decide), if_pos rfl, bind_apply]
    cases (sendEmail fromEmail toEmail subject body (connect dial s).2).1 <;> rfl

/-- **Delivery.** Before a server that greets and may refuse anything, over a connection that may break
anywhere and takes parts of what is written: there is one mail at most, which is the mail of the
arguments, and there is one when the client says so. -/
theorem mail_delivery (willing : Mailbox → Bytes → Bool) (code : Code) (dial : Dial)
    (clientDomain fromEmail toEmail subject body : Bytes) (unread : List (Option UInt8))
    (outcomes : List Int)
    (hplain : ∀ a ∈ arguments clientDomain fromEmail toEmail subject, ¬ crlf <:+: a)
    (hbody : ¬ DotStartsLine body) (line : Bytes) (box : Mailbox) (left : List Bytes) :
    let run := main dial fromEmail toEmail subject body (Client.start clientDomain unread outcomes)
    let mail : Mail := ⟨fromEmail, [toEmail], message fromEmail toEmail subject body⟩
    Attended willing ([], ⟨.ready, []⟩) [code.bytes] run.2.trace (line, box) left →
      (box.stored = [] ∨ box.stored = [mail]) ∧ (run.1 = 0 → box.stored = [mail]) := by
  intro run mail hattends
  let start := Client.start clientDomain unread outcomes
  obtain ⟨tail, htail, hquit⟩ := disconnect_spec (session dial fromEmail toEmail subject body start).2
  have hwhole : run.2.trace = (session dial fromEmail toEmail subject body start).2.trace ++ tail := by
    rw [← htail]
    exact congrArg Client.trace (main_state dial fromEmail toEmail subject body start)
  have hcode : run.1 = 0 → (session dial fromEmail toEmail subject body start).1 = true := by
    intro hzero
    by_contra hfailed
    have hone := main_code dial fromEmail toEmail subject body start
    rw [if_neg hfailed] at hone
    exact absurd (hone.symm.trans hzero) (by decide)
  rw [hwhole] at hattends
  obtain ⟨t, mid, hsession, hrest⟩ := hattends.split
  have hstored : box.stored = t.2.stored := by
    refine hrest.invariant (I := fun s => s.2.stored = t.2.stored) rfl ?_
    intro c hc part hpart s hs
    have hc : c = quit := by
      rcases hquit with hnone | hone
      · rw [hnone] at hc
        cases hc
      · rw [hone] at hc
        exact List.mem_singleton.mp hc
    rw [quit_stored (hc ▸ hpart), hs]
  have hconv : Conversation StartsWith greeting (script clientDomain fromEmail toEmail subject body)
      (session dial fromEmail toEmail subject body start).2.trace
      (session dial fromEmail toEmail subject body start).1 :=
    session_conversation dial clientDomain fromEmail toEmail subject body unread outcomes
  have hcomes : Comes willing mail ([], ⟨.ready, []⟩) _ := comes_script hplain hbody
  suffices hstages : (t.2.stored = [] ∨ t.2.stored = [mail]) ∧
      ((session dial fromEmail toEmail subject body start).1 = true → t.2.stored = [mail]) by
    rw [hstored]
    exact ⟨hstages.1, fun hzero => hstages.2 (hcode hzero)⟩
  generalize (session dial fromEmail toEmail subject body start).2.trace = tr at hconv hsession
  generalize (session dial fromEmail toEmail subject body start).1 = ok at hconv
  cases hconv with
  | nobody =>
    rw [hsession.still rfl]
    exact ⟨.inl rfl, nofun⟩
  | unwelcome hheard =>
    rw [hsession.still hheard.commands_eq]
    exact ⟨.inl rfl, nofun⟩
  | welcome hheard htalk =>
    obtain ⟨r, hr, rfl⟩ := hheard.accepted_iff
    cases hsession with
    | received _ htext => exact hcomes.attended htalk htext
    | silent hnone _ => exact absurd (hnone ▸ hr) (not_startsWith_nil rfl)

def welcome : Reply := ⟨[], ⟨0x32, 0x32, 0x30, by decide⟩, none⟩

def farewell : Reply := ⟨[], ⟨0x32, 0x32, 0x31, by decide⟩, none⟩

theorem mail_delivery_once :
    let run := main (.connected 3) (ofString "a@x") (ofString "b@x") (ofString "s") (ofString "hi")
      (Client.start (ofString "h")
        ((stream [welcome, okReply, okReply, okReply, goAhead, okReply, farewell]).map some)
        [8, 17, 15, 6, 82, 6])
    let mail : Mail := ⟨ofString "a@x", [ofString "b@x"],
      message (ofString "a@x") (ofString "b@x") (ofString "s") (ofString "hi")⟩
    run.1 = 0 ∧ ∃ line box left, Attended (fun _ _ => true) ([], ⟨.ready, []⟩) [welcome.code.bytes]
      run.2.trace (line, box) left ∧ box.stored = [mail] := by
  intro run mail
  have hcode : run.1 = 0 := by decide +kernel
  have hattend : attend (mailServer fun _ _ => true) StartsWith (fun response => response = [])
      ([], ⟨.ready, []⟩) [welcome.code.bytes] run.2.trace = some (([], ⟨.ready, [mail]⟩), []) := by
    decide +kernel
  have hattends := attends_of_attend hattend
  refine ⟨hcode, [], ⟨.ready, [mail]⟩, [], hattends, ?_⟩
  exact (mail_delivery (fun _ _ => true) welcome.code (.connected 3) _ _ _ _ _ _ _
    (by decide) (by decide) _ _ _ hattends).2 hcode

end Smtp
