import ComputerNetworks.Smtp.Client

/-!
# Lockstep

The session of `connect` and `sendEmail` is a scripted dialogue: no command goes out before the
reply to the last one was the one it asks for.
-/

open Lib Lib.Crlf Lib.Bytes Lib.Dialogue

namespace Smtp

/-- A reply starts with a code. -/
def StartsWith (code response : Bytes) : Prop := code <+: response

/-- What `sendEmail` writes, and the code that the reply to it has to start with. -/
def script (clientDomain fromEmail toEmail subject body : Bytes) : List (Bytes × Bytes) :=
  [(ofString "EHLO " ++ clientDomain ++ crlf, ofString "250"),
    (ofString "MAIL FROM:<" ++ fromEmail ++ ofString ">" ++ crlf, ofString "250"),
    (ofString "RCPT TO:<" ++ toEmail ++ ofString ">" ++ crlf, ofString "250"),
    (ofString "DATA" ++ crlf, ofString "354"),
    (emailContent fromEmail toEmail subject body, ofString "250")]

def greeting : Bytes := ofString "220"

def quit : Bytes := ofString "QUIT" ++ crlf

theorem bind_apply {α β : Type} (m : StateM Client α) (f : α → StateM Client β) (s : Client) :
    (m >>= f) s = f (m s).1 (m s).2 := rfl

/-! ## One reply -/

theorem checkResponseCode_iff {response code : Bytes} (hcode : code.length = 3) :
    checkResponseCode response code = true ↔ StartsWith code response := by
  unfold checkResponseCode StartsWith
  rw [List.prefix_iff_eq_take, hcode]
  split
  · rename_i hlt
    refine iff_of_false (by simp) fun h => ?_
    have := congrArg List.length h
    simp only [List.length_take] at this
    omega
  · simp [eq_comm]

theorem receiveResponse_frame (s : Client) :
    (receiveResponse s).2.sockfd = s.sockfd ∧ (receiveResponse s).2.clientDomain = s.clientDomain := by
  unfold receiveResponse
  split <;> exact ⟨rfl, rfl⟩

theorem receiveResponse_hears (s : Client) (code : Bytes) (hcode : code.length = 3) :
    ∃ heard, (receiveResponse s).2.trace = s.trace ++ heard ∧
      Hears StartsWith code heard (checkResponseCode (receiveResponse s).1 code) := by
  have hempty : ¬ StartsWith code [] := fun h => by
    rw [List.prefix_nil.mp h] at hcode
    cases hcode
  unfold receiveResponse
  split
  · rename_i unread hr
    refine ⟨[.broken, .received []], rfl, ?_⟩
    rw [show checkResponseCode [] code = false from rfl]
    exact .broken hempty
  · rename_i response unread hr
    refine ⟨[.received response], rfl, ?_⟩
    by_cases h : StartsWith code response
    · rw [(checkResponseCode_iff hcode).mpr h]
      exact .accepted h
    · rw [Bool.eq_false_iff.mpr (mt (checkResponseCode_iff hcode).mp h)]
      exact .refused h

/-! ## The script -/

/-- The steps of `sendEmail`, for any script. -/
def speak : List (Bytes × Bytes) → StateM Client Bool
  | [] => return true
  | (command, code) :: script => do
    let sent ← write command
    if sent < 0 then return false
    let response ← receiveResponse
    if !checkResponseCode response code then return false
    speak script

theorem sendCommand_bind (command : Bytes) (next : StateM Client Bool) :
    (do if !(← sendCommand command) then return false
        next) =
      (do let sent ← write (command ++ crlf)
          if sent < 0 then return false
          next) := by
  unfold sendCommand
  rw [bind_assoc]
  congr 1
  funext sent
  split <;> rfl

theorem sendEmail_eq (fromEmail toEmail subject body : Bytes) (s : Client) :
    sendEmail fromEmail toEmail subject body s =
      speak (script s.clientDomain fromEmail toEmail subject body) s := by
  unfold sendEmail
  simp only [sendCommand_bind, speak, script]
  rfl

theorem write_trace (data : Bytes) (s : Client) :
    (write data s).2.trace = s.trace ++ [.wrote data (write data s).1] := by
  unfold write
  split <;> rfl

theorem speak_cons (command code : Bytes) (rest : List (Bytes × Bytes)) (s : Client) :
    speak ((command, code) :: rest) s =
      if (write command s).1 < 0 then (false, (write command s).2)
      else if checkResponseCode (receiveResponse (write command s).2).1 code then
        speak rest (receiveResponse (write command s).2).2
      else (false, (receiveResponse (write command s).2).2) := by
  rw [speak, bind_apply]
  by_cases hsent : (write command s).1 < 0
  · rw [if_pos hsent, if_pos hsent]
    rfl
  · rw [if_neg hsent, if_neg hsent, bind_apply]
    cases checkResponseCode (receiveResponse (write command s).2).1 code <;> rfl

theorem speak_talks (rest : List (Bytes × Bytes)) (hcodes : ∀ p ∈ rest, p.2.length = 3) :
    ∀ s : Client, ∃ tr, (speak rest s).2.trace = s.trace ++ tr ∧
      Talk StartsWith rest tr (speak rest s).1 := by
  induction rest with
  | nil => intro s; exact ⟨[], by rw [List.append_nil]; rfl, .done⟩
  | cons step rest ih =>
    intro s
    obtain ⟨command, code⟩ := step
    rw [speak_cons]
    have hw := write_trace command s
    obtain ⟨heard, htr, hheard⟩ :=
      receiveResponse_hears (write command s).2 code (hcodes (command, code) (by simp))
    split
    · rename_i hsent
      exact ⟨_, hw, .unsent hsent⟩
    rename_i hsent
    rw [hw] at htr
    split
    · -- The reply is the one asked for, and the script goes on.
      rename_i hcode
      rw [hcode] at hheard
      obtain ⟨tr, htr', htalk⟩ := ih (fun p hp => hcodes p (List.mem_cons_of_mem _ hp))
        (receiveResponse (write command s).2).2
      refine ⟨_, ?_, .next (Int.not_lt.mp hsent) hheard htalk⟩
      rw [htr', htr]
      simp
    · rename_i hcode
      rw [Bool.eq_false_iff.mpr hcode] at hheard
      refine ⟨_, ?_, .stuck (Int.not_lt.mp hsent) hheard⟩
      rw [htr]
      simp

theorem sendEmail_talks (fromEmail toEmail subject body : Bytes) (s : Client) :
    ∃ tr, (sendEmail fromEmail toEmail subject body s).2.trace = s.trace ++ tr ∧
      Talk StartsWith (script s.clientDomain fromEmail toEmail subject body) tr
        (sendEmail fromEmail toEmail subject body s).1 := by
  rw [sendEmail_eq]
  apply speak_talks
  simp only [script, List.mem_cons, List.not_mem_nil, or_false, forall_eq_or_imp, forall_eq]
  decide

/-! ## The session -/

/-- `connect`, followed by `sendEmail` when it succeeds, as `main` has them. -/
def session (dial : Dial) (fromEmail toEmail subject body : Bytes) : StateM Client Bool := do
  if !(← connect dial) then return false
  sendEmail fromEmail toEmail subject body

theorem connect_connected (fd : Nat) (s : Client) :
    connect (.connected fd) s =
      (checkResponseCode (receiveResponse { s with sockfd := fd }).1 greeting,
        (receiveResponse { s with sockfd := fd }).2) := by
  have hempty : ∀ response : Bytes, (response.isEmpty || !checkResponseCode response greeting) =
      !checkResponseCode response greeting := by
    intro response
    cases response <;> rfl
  change (do
    let response ← receiveResponse
    if response.isEmpty || !checkResponseCode response greeting then return false
    return true : StateM Client Bool) { s with sockfd := fd } = _
  rw [bind_apply, hempty]
  cases checkResponseCode (receiveResponse { s with sockfd := fd }).1 greeting <;> rfl

theorem session_apply (dial : Dial) (fromEmail toEmail subject body : Bytes) (s : Client) :
    session dial fromEmail toEmail subject body s =
      if (connect dial s).1 then sendEmail fromEmail toEmail subject body (connect dial s).2
      else (false, (connect dial s).2) := by
  rw [session, bind_apply]
  cases (connect dial s).1 <;> rfl

section Session

variable (dial : Dial) (clientDomain fromEmail toEmail subject body : Bytes)
  (unread : List (Option UInt8)) (outcomes : List Int)

/-- **A session is a conversation**, of which `sendEmail` has the part behind the greeting. -/
theorem session_conversation :
    let start := Client.start clientDomain unread outcomes
    Conversation StartsWith greeting (script clientDomain fromEmail toEmail subject body)
      (session dial fromEmail toEmail subject body start).2.trace
      (session dial fromEmail toEmail subject body start).1 := by
  intro start
  rw [session_apply]
  cases dial with
  | connected fd =>
    let opened : Client := { start with sockfd := fd }
    obtain ⟨heard, htr, hheard⟩ := receiveResponse_hears opened greeting (by decide)
    obtain ⟨-, hdomain⟩ := receiveResponse_frame opened
    rw [connect_connected]
    by_cases hcode : checkResponseCode (receiveResponse opened).1 greeting = true
    · rw [if_pos hcode]
      obtain ⟨tr, htr', htalk⟩ :=
        sendEmail_talks fromEmail toEmail subject body (receiveResponse opened).2
      rw [hcode] at hheard
      rw [hdomain] at htalk
      rw [htr', htr]
      exact .welcome hheard htalk
    · rw [if_neg hcode]
      rw [Bool.eq_false_iff.mpr hcode] at hheard
      rw [htr]
      exact .unwelcome hheard
  | noSocket => exact .nobody
  | unresolved => exact .nobody
  | badAddress => exact .nobody
  | refused => exact .nobody

/-! ## The end of a session -/

theorem disconnect_closed {s : Client} (h : s.sockfd < 0) : disconnect s = ((), s) := by
  rw [disconnect, bind_apply]
  exact if_neg (not_le.mpr h) ▸ rfl

theorem disconnect_open {s : Client} (h : 0 ≤ s.sockfd) :
    (disconnect s).2.sockfd = -1 ∧ ∃ tail, (disconnect s).2.trace = s.trace ++ tail ∧
      commands tail = [quit] := by
  have hw := write_trace quit s
  have hstate : (disconnect s).2 =
      { (if (write quit s).1 < 0 then (write quit s).2
          else (receiveResponse (write quit s).2).2) with sockfd := -1 } := by
    rw [disconnect, bind_apply]
    change ((if 0 ≤ s.sockfd then _ else _ : StateM Client Unit) s).2 = _
    rw [if_pos h, sendCommand, show ofString "QUIT" ++ crlf = quit from rfl, bind_assoc, bind_apply]
    by_cases hsent : (write quit s).1 < 0
    · rw [if_pos hsent, if_pos hsent]
      rfl
    · rw [if_neg hsent, if_neg hsent]
      rfl
  rw [hstate]
  refine ⟨rfl, ?_⟩
  split
  · exact ⟨_, hw, rfl⟩
  · obtain ⟨heard, htr, hheard⟩ :=
      receiveResponse_hears (write quit s).2 (ofString "221") (by decide)
    refine ⟨.wrote quit (write quit s).1 :: heard, ?_, ?_⟩
    · rw [htr, hw]
      simp
    · rw [commands_wrote, hheard.commands_eq]

theorem disconnect_spec (s : Client) : ∃ tail, (disconnect s).2.trace = s.trace ++ tail ∧
    (commands tail = [] ∨ commands tail = [quit]) := by
  by_cases h : 0 ≤ s.sockfd
  · obtain ⟨-, tail, htr, hquit⟩ := disconnect_open h
    exact ⟨tail, htr, Or.inr hquit⟩
  · rw [disconnect_closed (not_le.mp h)]
    exact ⟨[], by simp, Or.inl rfl⟩

theorem disconnect_sockfd (s : Client) : (disconnect s).2.sockfd < 0 := by
  by_cases h : 0 ≤ s.sockfd
  · rw [(disconnect_open h).1]
    decide
  · rw [disconnect_closed (not_le.mp h)]
    exact not_le.mp h

theorem destroy_eq_disconnect (s : Client) : destroy s = disconnect s := by
  rw [destroy, bind_apply]
  by_cases h : s.sockfd = -1
  · rw [disconnect_closed (by omega)]
    exact if_neg (not_not.mpr h) ▸ rfl
  · exact if_pos h ▸ rfl

theorem main_state (s : Client) :
    (main dial fromEmail toEmail subject body s).2 =
      (disconnect (session dial fromEmail toEmail subject body s).2).2 := by
  have htwice : ∀ t : Client, (destroy (disconnect t).2).2 = (disconnect t).2 := by
    intro t
    rw [destroy_eq_disconnect, disconnect_closed (disconnect_sockfd t)]
  rw [session_apply, main, bind_apply]
  cases (connect dial s).1 with
  | false =>
    rw [← destroy_eq_disconnect]
    rfl
  | true =>
    rw [if_neg (by decide), if_pos rfl, bind_apply]
    cases hsent : (sendEmail fromEmail toEmail subject body (connect dial s).2).1
    · exact htwice _
    · exact htwice _

/-- **Lockstep.** -/
theorem session_lockstep :
    let start := Client.start clientDomain unread outcomes
    let texts := (script clientDomain fromEmail toEmail subject body).map Prod.fst
    let codes := greeting :: (script clientDomain fromEmail toEmail subject body).map Prod.snd
    let run := session dial fromEmail toEmail subject body start
    let whole := (main dial fromEmail toEmail subject body start).2.trace
    -- Each text goes out behind all the texts before it and the replies that these ask for.
    EachCommand (fun before c => ∃ i, texts[i]? = some c ∧
        Led StartsWith (texts.take i) (codes.take (i + 1)) before) run.2.trace ∧
      commands run.2.trace <+: texts ∧
      -- `sendEmail` succeeds exactly when its writes do and its five replies are the right ones.
      (∀ s : Client, ∃ part, (sendEmail fromEmail toEmail subject body s).2.trace = s.trace ++ part ∧
        ((sendEmail fromEmail toEmail subject body s).1 = true ↔
          (∀ c sent, .wrote c sent ∈ part → 0 ≤ sent) ∧
          List.Forall₂ StartsWith
            [ofString "250", ofString "250", ofString "250", ofString "354", ofString "250"]
            (replies part))) ∧
      -- A connection that closes in the middle of a reply is no success.
      (.broken ∈ run.2.trace → run.1 = false) ∧
      -- Behind the session, and behind a failure, there is nothing but one QUIT.
      (commands whole = commands run.2.trace ∨ commands whole = commands run.2.trace ++ [quit]) ∧
      (∀ before e after, whole = before ++ e :: after → Fails StartsWith codes before e →
        ∀ c ∈ commands after, c = quit) := by
  intro start texts codes run whole
  have hconv : Conversation StartsWith greeting _ run.2.trace run.1 :=
    session_conversation dial clientDomain fromEmail toEmail subject body unread outcomes
  obtain ⟨tail, htail, hquit⟩ := disconnect_spec run.2
  have hwhole : whole = run.2.trace ++ tail := by
    rw [← htail]
    exact congrArg Client.trace (main_state dial fromEmail toEmail subject body start)
  have hquits : ∀ c ∈ commands tail, c = quit := by
    rcases hquit with hq | hq <;> simp [hq]
  refine ⟨hconv.eachCommand, hconv.commands_prefix, ?_, ?_, ?_, ?_⟩
  · intro s
    obtain ⟨part, htr, htalk⟩ := sendEmail_talks fromEmail toEmail subject body s
    exact ⟨part, htr, htalk.ok_iff⟩
  · intro hbroken
    by_contra hok
    rw [Bool.not_eq_false] at hok
    exact (hok ▸ hconv).not_broken hbroken
  · rw [hwhole, commands_append]
    rcases hquit with hq | hq <;> simp [hq]
  · rintro before e after hsplit hfails
    rw [hwhole] at hsplit
    rcases List.append_eq_append_iff.mp hsplit with ⟨more, -, ht⟩ | ⟨more, hb, ht⟩
    · -- The failure is behind the session, where there is nothing but the QUIT.
      intro c hc
      apply hquits c
      rw [ht, commands_append]
      exact List.mem_append_right _ (commands_subset_cons e after hc)
    · cases more with
      | nil =>
        intro c hc
        apply hquits c
        rw [← List.nil_append tail, ← ht]
        exact commands_subset_cons e after hc
      | cons d more =>
        obtain ⟨rfl, rfl⟩ : e = d ∧ after = more ++ tail := by simpa using ht
        have hnone := (hconv.eachCommand.mono fun _ _ ⟨i, _, hled⟩ => ⟨_, i + 1, hled⟩).after_failure
          hb hfails
        rw [commands_append, hnone]
        exact hquits

end Session

end Smtp
