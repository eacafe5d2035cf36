import ComputerNetworks.Lib.Number
import ComputerNetworks.Pinger.Server

/-!
# The client of the UDP pinger

The loop of `udp_pinger_client.cpp` with its socket, and the network behind it: every ping may reach the
server, and every echo of the server may arrive, at any time, any number of times or never.
-/

open Lib Lib.Bytes Lib.Ctype Lib.Fields Lib.Number

namespace Pinger

/-! ## Options -/

/-- Options that `main` lets through. -/
structure Options where
  heartbeatMode : Bool
  count : Nat
  timeoutMs : Nat
  intervalMs : Nat
  count_pos : 0 < count
  count_lt : count < 2 ^ 31
  timeout_pos : 0 < timeoutMs

/-- The checks on the options, with their messages. -/
def checkOptions (heartbeatMode : Bool) (count timeoutMs intervalMs : Int32) : Except String Options :=
  if hc : count.toInt ≤ 0 then .error "Invalid --count (must be > 0)"
  else if ht : timeoutMs.toInt ≤ 0 then .error "Invalid --timeout-ms (must be > 0)"
  else if intervalMs.toInt < 0 then .error "Invalid --interval-ms (must be >= 0)"
  else .ok
    { heartbeatMode
      count := count.toInt.toNat
      timeoutMs := timeoutMs.toInt.toNat
      intervalMs := intervalMs.toInt.toNat
      count_pos := by omega
      count_lt := by have := count.toInt_lt; omega
      timeout_pos := by omega }

theorem checkOptions_eq_ok_iff {heartbeatMode : Bool} {count timeoutMs intervalMs : Int32} {o : Options} :
    checkOptions heartbeatMode count timeoutMs intervalMs = .ok o ↔
      o.heartbeatMode = heartbeatMode ∧ (o.count : Int) = count.toInt ∧
        (o.timeoutMs : Int) = timeoutMs.toInt ∧ (o.intervalMs : Int) = intervalMs.toInt := by
  unfold checkOptions
  constructor
  · intro h
    split_ifs at h
    cases h
    exact ⟨rfl, by dsimp only; omega, by dsimp only; omega, by dsimp only; omega⟩
  · rintro ⟨rfl, hcount, htimeout, hinterval⟩
    obtain ⟨_, count', timeoutMs', intervalMs', hc, _, ht⟩ := o
    dsimp only at hcount htimeout hinterval
    rw [dif_neg (by omega), dif_neg (by omega), if_neg (by omega)]
    congr 2 <;> omega

/-- `SO_RCVTIMEO` -/
def Options.timeout (o : Options) : Nat :=
  o.timeoutMs / 1000 * second + o.timeoutMs % 1000 * 1000 * 1000

theorem Options.timeout_eq (o : Options) : o.timeout = o.timeoutMs * millisecond := by
  unfold Options.timeout second millisecond
  omega

theorem Options.zero_lt_timeout (o : Options) : 0 < o.timeout := by
  rw [o.timeout_eq]
  exact Nat.mul_pos o.timeout_pos (by decide)

/-! ## Messages -/

def kind (heartbeatMode : Bool) : Bytes :=
  if heartbeatMode then ofString "Heartbeat" else ofString "Ping"

def message (heartbeatMode : Bool) (seq : Int) (tsMs : Int64) : Bytes :=
  kind heartbeatMode ++ space :: (intText seq ++ space :: intText tsMs.toInt)

/-- `seq_out` and `ts_ms_out`, if it is a payload. -/
def parsePingPayload (payload : Bytes) : Option (Int × Int) :=
  let kind := word isspace payload
  match extract 32 kind.2 with
  | none => none
  | some (seq, rest) =>
    match extract 64 rest with
    | none => none
    | some (tsMs, _) =>
      if kind.1 ≠ ofString "Ping" ∧ kind.1 ≠ ofString "Heartbeat" then none else some (seq, tsMs)

theorem payload_message (heartbeatMode : Bool) {seq : Int} (hseq : IsInt seq) (tsMs : Int64) :
    payload (message heartbeatMode seq tsMs) = message heartbeatMode seq tsMs := by
  have hkind : (kind heartbeatMode).length ≤ 9 ∧ 0 ∉ kind heartbeatMode := by
    cases heartbeatMode <;> decide
  have hseqLength : (intText seq).length ≤ 11 :=
    length_intText_le (by decide) (by have := hseq.1; have := hseq.2; omega)
  have htsLength : (intText tsMs.toInt).length ≤ 20 :=
    length_intText_le (by decide) (by have := tsMs.le_toInt; have := tsMs.toInt_lt; omega)
  have hlength : (message heartbeatMode seq tsMs).length ≤ 1023 := by
    simp only [message, List.length_append, List.length_cons]
    omega
  have hzero : 0 ∉ message heartbeatMode seq tsMs := by
    simp only [message, List.mem_append, List.mem_cons, not_or]
    exact ⟨hkind.2, by decide, zero_notMem_intText seq, by decide, zero_notMem_intText _⟩
  rw [payload, List.take_of_length_le hlength, List.takeWhile_eq_self_iff]
  exact fun c hc => decide_eq_true fun h => hzero (h ▸ hc)

theorem parsePingPayload_message (heartbeatMode : Bool) {seq : Int} (hseq : IsInt seq) (tsMs : Int64) :
    parsePingPayload (message heartbeatMode seq tsMs) = some (seq, tsMs.toInt) := by
  have hsolid : ∀ c ∈ kind heartbeatMode, isspace c = false :=
    forall_of_all (by cases heartbeatMode <;> rfl)
  have hne : kind heartbeatMode ≠ [] := by cases heartbeatMode <;> decide
  have hknown : ¬(kind heartbeatMode ≠ ofString "Ping" ∧ kind heartbeatMode ≠ ofString "Heartbeat") := by
    cases heartbeatMode <;> decide
  have hseqText : extract 32 (intText seq ++ space :: intText tsMs.toInt) =
      some (seq, space :: intText tsMs.toInt) :=
    extract_intText hseq.1 hseq.2 (by rintro c ⟨⟩; decide)
  have htsText : extract 64 (intText tsMs.toInt) = some (tsMs.toInt, []) := by
    have htext : extract 64 (intText tsMs.toInt ++ []) = some (tsMs.toInt, []) :=
      extract_intText tsMs.le_toInt tsMs.toInt_lt (by simp)
    rwa [List.append_nil] at htext
  unfold parsePingPayload message
  rw [word_append hne hsolid (by rintro c ⟨⟩; rfl)]
  dsimp only
  rw [extract_cons 32 (by decide), hseqText]
  dsimp only
  rw [extract_cons 64 (by decide), htsText]
  exact if_neg hknown

/-! ## State -/

/-- An echo, and the number of the ping that it is the echo of. -/
structure Datagram where
  ping : Nat
  bytes : Bytes
  deriving DecidableEq

/-- Where in its loop the client is: before `sendto`, in `recvfrom`, in `sleep_for`, or behind it. -/
inductive Phase where
  | sending
  | waiting (deadline : Nat)
  | sleeping (wake : Nat)
  | done
  deriving DecidableEq

/-- The client, what is unread in its socket, and what has been sent: its pings, and the echoes of the
server. -/
structure Client where
  now : Nat
  seq : Nat
  phase : Phase
  received : Nat
  lost : Nat
  buffer : List Datagram
  pings : List Bytes
  echoes : List Datagram

def Client.init : Client :=
  { now := 0, seq := 1, phase := .sending, received := 0, lost := 0, buffer := [], pings := [],
    echoes := [] }

inductive ClientInput where
  | pass (time : Nat)
  | send (tsMs : Int64)
  /-- A ping reaches the server. -/
  | reach (k : Nat)
  /-- An echo arrives at the socket. -/
  | arrive (k : Nat)
  | recv
  | wake

/-- The slot of an echo is the iteration that is going to read it. -/
inductive ClientOutput where
  | sent (seq time : Nat)
  | arrived (ping slot time : Nat)
  | reply (seq : Nat) (respSeq : Int)
  | malformed (seq : Nat)
  | timedOut (seq : Nat)
  deriving DecidableEq

/-! ## Steps -/

/-- The iteration of the next `recvfrom`. -/
def Client.turn (c : Client) : Nat :=
  match c.phase with
  | .sleeping _ => c.seq + 1
  | _ => c.seq

def Client.slot (c : Client) : Nat := c.turn + c.buffer.length

variable (o : Options)

def Client.advance (c : Client) : Client :=
  { c with seq := c.seq + 1, phase := if c.seq + 1 ≤ o.count then .sending else .done }

/-- The end of an iteration. -/
def Client.finish (time : Nat) (c : Client) : Client :=
  if c.seq ≠ o.count ∧ 0 < o.intervalMs then
    { c with phase := .sleeping (time + o.intervalMs * millisecond) }
  else c.advance o

/-- `recvfrom` comes back at its deadline when nothing is there. -/
def Client.pass (c : Client) (time : Nat) : Client × List ClientOutput :=
  let later := c.now + time
  match c.phase with
  | .waiting deadline =>
    if c.buffer = [] ∧ deadline ≤ later then
      (({ c with now := later, lost := c.lost + 1 } : Client).finish o deadline, [.timedOut c.seq])
    else ({ c with now := later }, [])
  | _ => ({ c with now := later }, [])

def Client.recv (c : Client) (d : Datagram) (buffer : List Datagram) : Client × List ClientOutput :=
  match parsePingPayload (payload d.bytes) with
  | none => (({ c with buffer, lost := c.lost + 1 } : Client).finish o c.now, [.malformed c.seq])
  | some (respSeq, _) =>
    (({ c with buffer, received := c.received + 1 } : Client).finish o c.now, [.reply c.seq respSeq])

def Client.step (c : Client) : ClientInput → Client × List ClientOutput
  | .pass time => c.pass o time
  | .send tsMs =>
    if c.phase = .sending then
      ({ c with
          pings := c.pings ++ [message o.heartbeatMode c.seq tsMs]
          phase := .waiting (c.now + o.timeout) },
        [.sent c.seq c.now])
    else (c, [])
  | .reach k =>
    match c.pings[k]? with
    | some ping => ({ c with echoes := c.echoes ++ [⟨k + 1, payload ping⟩] }, [])
    | none => (c, [])
  | .arrive k =>
    match c.echoes[k]? with
    | some d => ({ c with buffer := c.buffer ++ [d] }, [.arrived d.ping c.slot c.now])
    | none => (c, [])
  | .recv =>
    match c.phase, c.buffer with
    | .waiting _, d :: buffer => c.recv o d buffer
    | _, _ => (c, [])
  | .wake =>
    match c.phase with
    | .sleeping wake => if wake ≤ c.now then (c.advance o, []) else (c, [])
    | _ => (c, [])

/-- The client in its surroundings. An input for which it is not ready changes nothing. -/
def client : Machine Client ClientInput ClientOutput := ⟨Client.step o⟩

/-! ## What a step does -/

/-- What a step comes to, and what comes out. -/
inductive ClientMoves (c : Client) (i : ClientInput) : Client → List ClientOutput → Prop where
  | lapses {now : Nat} (hnow : c.now ≤ now)
      (hdeadline : ∀ deadline, c.phase = .waiting deadline → c.buffer = [] → c.now < deadline →
        now < deadline) : ClientMoves c i { c with now := now } []
  | timesOut {deadline now : Nat} (hphase : c.phase = .waiting deadline) (hbuffer : c.buffer = [])
      (hnow : c.now ≤ now) (hdeadline : deadline ≤ now) :
      ClientMoves c i (({ c with now := now, lost := c.lost + 1 } : Client).finish o deadline)
        [.timedOut c.seq]
  | sends (tsMs : Int64) (hphase : c.phase = .sending) :
      ClientMoves c i
        { c with
          pings := c.pings ++ [message o.heartbeatMode c.seq tsMs]
          phase := .waiting (c.now + o.timeout) }
        [.sent c.seq c.now]
  | reaches {k : Nat} {ping : Bytes} (hping : c.pings[k]? = some ping) :
      ClientMoves c i { c with echoes := c.echoes ++ [⟨k + 1, payload ping⟩] } []
  | arrives {k : Nat} {d : Datagram} (hi : i = .arrive k) (hd : c.echoes[k]? = some d) :
      ClientMoves c i { c with buffer := c.buffer ++ [d] } [.arrived d.ping c.slot c.now]
  | receives {deadline : Nat} {d : Datagram} {buffer : List Datagram} {respSeq respTs : Int}
      (hphase : c.phase = .waiting deadline) (hbuffer : c.buffer = d :: buffer)
      (hparse : parsePingPayload (payload d.bytes) = some (respSeq, respTs)) :
      ClientMoves c i (({ c with buffer, received := c.received + 1 } : Client).finish o c.now)
        [.reply c.seq respSeq]
  | rejects {deadline : Nat} {d : Datagram} {buffer : List Datagram}
      (hphase : c.phase = .waiting deadline) (hbuffer : c.buffer = d :: buffer)
      (hparse : parsePingPayload (payload d.bytes) = none) :
      ClientMoves c i (({ c with buffer, lost := c.lost + 1 } : Client).finish o c.now)
        [.malformed c.seq]
  | wakes {wake : Nat} (hphase : c.phase = .sleeping wake) : ClientMoves c i (c.advance o) []

theorem ClientMoves.still (c : Client) (i : ClientInput) : ClientMoves o c i c [] :=
  .lapses (Nat.le_refl _) fun _ _ _ h => h

theorem pass_moves (c : Client) (time : Nat) :
    ClientMoves o c (.pass time) (c.pass o time).1 (c.pass o time).2 := by
  have hnow := Nat.le_add_right c.now time
  unfold Client.pass
  dsimp only
  split
  · rename_i deadline hphase
    split
    · rename_i hdue
      exact .timesOut hphase hdue.1 hnow hdue.2
    · rename_i hdue
      refine .lapses hnow fun deadline' hphase' hbuffer _ => ?_
      obtain rfl : deadline = deadline' := Phase.waiting.inj (hphase.symm.trans hphase')
      exact Nat.lt_of_not_le fun hle => hdue ⟨hbuffer, hle⟩
  · rename_i hphase
    exact .lapses hnow fun deadline hwaiting => absurd hwaiting (hphase deadline)

theorem clientRecv_moves {c : Client} {deadline : Nat} (hphase : c.phase = .waiting deadline)
    {d : Datagram} {buffer : List Datagram} (hbuffer : c.buffer = d :: buffer) :
    ClientMoves o c .recv (c.recv o d buffer).1 (c.recv o d buffer).2 := by
  unfold Client.recv
  split
  · rename_i hparse
    exact .rejects hphase hbuffer hparse
  · rename_i hparse
    exact .receives hphase hbuffer hparse

theorem clientStep_moves (c : Client) (i : ClientInput) :
    ClientMoves o c i (c.step o i).1 (c.step o i).2 := by
  cases i with
  | pass time => exact pass_moves o c time
  | send tsMs =>
    rw [Client.step]
    split
    · rename_i hphase
      exact .sends tsMs hphase
    · exact .still o c _
  | reach k =>
    rw [Client.step]
    split
    · rename_i hping
      exact .reaches hping
    · exact .still o c _
  | arrive k =>
    rw [Client.step]
    split
    · rename_i hd
      exact .arrives rfl hd
    · exact .still o c _
  | recv =>
    rw [Client.step]
    split
    · rename_i hphase hbuffer
      exact clientRecv_moves o hphase hbuffer
    · exact .still o c _
  | wake =>
    rw [Client.step]
    split
    · rename_i hphase
      split
      · exact .wakes hphase
      · exact .still o c _
    · exact .still o c _

/-! ## The end of an iteration -/

section Finish

variable (c : Client) (time : Nat)

theorem finish_frame : (c.finish o time).now = c.now ∧ (c.finish o time).received = c.received ∧
    (c.finish o time).lost = c.lost ∧ (c.finish o time).buffer = c.buffer ∧
    (c.finish o time).pings = c.pings ∧ (c.finish o time).echoes = c.echoes := by
  unfold Client.finish Client.advance
  split <;> exact ⟨rfl, rfl, rfl, rfl, rfl, rfl⟩

theorem turn_advance : (c.advance o).turn = c.seq + 1 := by
  unfold Client.advance Client.turn
  dsimp only
  split
  · rename_i hphase
    split at hphase <;> cases hphase
  · rfl

theorem turn_finish : (c.finish o time).turn = c.seq + 1 := by
  unfold Client.finish
  split
  · rfl
  · exact turn_advance o c

end Finish

end Pinger
