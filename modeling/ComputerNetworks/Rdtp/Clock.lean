import ComputerNetworks.Rdtp.Safety
import Mathlib.Order.Monotone.Basic

/-!
# The sender and its clock

`rdt_sender.cpp` with every reading of `now_ms`: when a packet went out last, and how long `select` waits.
Without the times it is the sender that has a timeout at any wait.
-/

open Lib Lib.Channel

namespace Rdtp

/-! ## Time -/

/-- What `now_ms` gives, call by call. The clock is a steady one. -/
structure Clock where
  reading : Nat → UInt64
  steady : Monotone fun i => (reading i).toNat

/-- `tv_sec` and `tv_usec`. -/
structure Timeval where
  sec : Nat
  usec : Nat
  deriving DecidableEq, Repr

def msToTimeval (ms : UInt64) : Timeval := ⟨(ms / 1000).toNat, ((ms % 1000) * 1000).toNat⟩

def Timeval.micros (tv : Timeval) : Nat := tv.sec * 1000000 + tv.usec

theorem msToTimeval_spec (ms : UInt64) :
    (msToTimeval ms).usec < 1000000 ∧ (msToTimeval ms).micros = ms.toNat * 1000 := by
  have hthousand : (1000 : UInt64).toNat = 1000 := rfl
  have husec : (msToTimeval ms).usec = ms.toNat % 1000 * 1000 := by
    rw [msToTimeval, UInt64.toNat_mul, UInt64.toNat_mod, hthousand, Nat.mod_eq_of_lt (by omega)]
  have hsec : (msToTimeval ms).sec = ms.toNat / 1000 := by
    rw [msToTimeval, UInt64.toNat_div, hthousand]
  rw [Timeval.micros, husec, hsec]
  omega

/-! ## State -/

structure TimedInFlight where
  packet : InFlight
  lastSendMs : UInt64
  deriving DecidableEq, Repr

structure TimedSender where
  phase : Phase
  unread : Bytes
  window : List TimedInFlight
  base : UInt32
  nextSeq : UInt32
  eof : Bool
  totalSentPayload : UInt64
  retransmits : UInt64
  lastFinSend : UInt64
  /-- In the FIN loop: between the check of the time and the end of `select`. -/
  selecting : Bool
  /-- How often `now_ms` was called behind `start_ms`. -/
  calls : Nat
  deriving DecidableEq, Repr

def TimedSender.fresh (file : Bytes) : TimedSender where
  phase := .start
  unread := file
  window := []
  base := 0
  nextSeq := 0
  eof := false
  totalSentPayload := 0
  retransmits := 0
  lastFinSend := 0
  selecting := false
  calls := 0

/-- The sender without its times. -/
def TimedSender.untimed (s : TimedSender) : Sender where
  phase := s.phase
  unread := s.unread
  window := s.window.map (·.packet)
  base := s.base
  nextSeq := s.nextSeq
  eof := s.eof
  totalSentPayload := s.totalSentPayload
  retransmits := s.retransmits

/-! ## The lambdas of `main` -/

section Lambdas

variable (clock : Clock) (opt : Options)

def TimedSender.push (s : TimedSender) (payload : Bytes) : TimedSender :=
  { s with
    unread := s.unread.drop opt.mss.toNat
    nextSeq := s.nextSeq + 1
    totalSentPayload := s.totalSentPayload + UInt64.ofNat payload.length
    window := s.window ++ [⟨dataInFlight s.nextSeq payload, clock.reading s.calls⟩]
    calls := s.calls + 1 }

/-- `fill_window`. -/
def TimedSender.fill (s : TimedSender) (sent : List Bytes) : TimedSender × List Bytes :=
  if s.eof = false ∧ s.window.length < opt.window.toNat then
    let payload := s.unread.take opt.mss.toNat
    if payload = [] then ({ s with eof := true }, sent)
    else TimedSender.fill (s.push clock opt payload) (sent ++ [(dataInFlight s.nextSeq payload).bytes])
  else (s, sent)
termination_by opt.window.toNat - s.window.length
decreasing_by simp only [TimedSender.push, List.length_append, List.length_singleton]; omega

/-- The loop of `handle_ack`. -/
def popTimed (ackno : UInt32) : List TimedInFlight → UInt32 → List TimedInFlight × UInt32
  | [], base => ([], base)
  | p :: window, base =>
    if p.packet.seq ≤ ackno then popTimed ackno window (ackno + 1) else (p :: window, base)

/-- `send_data_packet` on one entry of the window after the other. -/
def resend : Nat → List TimedInFlight → List TimedInFlight
  | _, [] => []
  | calls, p :: window => ⟨p.packet, clock.reading calls⟩ :: resend (calls + 1) window

/-- What the main loop finds before it calls `select`: how long it may wait. -/
def TimedSender.timeout (s : TimedSender) : UInt64 :=
  match s.window with
  | [] => opt.timeoutMs
  | p :: _ =>
    let elapsed := clock.reading s.calls - p.lastSendMs
    if opt.timeoutMs ≤ elapsed then 0 else opt.timeoutMs - elapsed

/-- The calls of `now_ms` up to the end of `select`. -/
def TimedSender.callsSelected (s : TimedSender) : Nat := if s.window.isEmpty then s.calls else s.calls + 1

/-! ## Moves -/

/-- The state once `select` has come back in the main loop. -/
def TimedSender.selected (s : TimedSender) : TimedSender := { s with calls := s.callsSelected }

def TimedSender.onTimeout (s : TimedSender) : TimedSender × List Bytes :=
  ({ s with
      window := resend clock s.calls s.window
      calls := s.calls + s.window.length
      retransmits := s.retransmits + UInt64.ofNat s.window.length }, s.window.map (·.packet.bytes))

def TimedSender.onDatagram (s : TimedSender) (datagram : Bytes) : TimedSender × List Bytes :=
  match parsePacket (recvfrom senderBuf datagram) with
  | none => (s, [])
  | some pkt =>
    if pkt.type ≠ .ack then (s, [])
    else
      match s.window with
      | [] => (s, [])
      | front :: _ =>
        if front.packet.seq ≤ pkt.seq then
          let (window, base) := popTimed pkt.seq s.window s.base
          TimedSender.fill clock opt { s with window, base } []
        else (s, [])

/-- Between two calls of `now_ms` at least this many milliseconds have gone by. -/
def Clock.Elapsed (clock : Clock) (i j : Nat) (tv : Timeval) : Prop :=
  (clock.reading i).toNat * 1000 + tv.micros ≤ (clock.reading j).toNat * 1000

/-- The time is up for another FIN. -/
def TimedSender.finDue (s : TimedSender) : Bool :=
  decide (opt.timeoutMs ≤ clock.reading s.calls - s.lastFinSend)

def TimedSender.onFinDatagram (s : TimedSender) (datagram : Bytes) : TimedSender :=
  match parsePacket (recvfrom senderBuf datagram) with
  | none => s
  | some pkt => if pkt.type = .ack ∧ pkt.seq = s.nextSeq then { s with phase := .finished } else s

/-- From `s`, the sender takes `input` off its socket (or nothing), sends `sent`, and is at `t`. `select`
gives 0 only when the time that it was given is over. -/
inductive TimedMove : TimedSender → Option Bytes → TimedSender → List Bytes → Prop where
  | begin {s : TimedSender} : s.phase = .start →
      TimedMove s none { (s.fill clock opt []).1 with phase := .main } (s.fill clock opt []).2
  /-- `EINTR`, of `select` or of `recvfrom`. -/
  | interrupted {s : TimedSender} : s.phase = .main → s.untimed.loops → TimedMove s none s.selected []
  | timeout {s : TimedSender} : s.phase = .main → s.untimed.loops →
      (s.window ≠ [] → clock.Elapsed s.calls s.callsSelected (msToTimeval (s.timeout clock opt))) →
      TimedMove s none (s.selected.onTimeout clock).1 (s.selected.onTimeout clock).2
  | datagram {s : TimedSender} (b : Bytes) : s.phase = .main → s.untimed.loops →
      TimedMove s (some b) (s.selected.onDatagram clock opt b).1 (s.selected.onDatagram clock opt b).2
  | leave {s : TimedSender} : s.phase = .main → s.untimed.loops = false →
      TimedMove s none { s with phase := .fin } []
  | sendFin {s : TimedSender} : s.phase = .fin → s.selecting = false → s.finDue clock opt = true →
      TimedMove s none
        { s with lastFinSend := clock.reading s.calls, selecting := true, calls := s.calls + 1 }
        [finPacket s.untimed]
  | waitFin {s : TimedSender} : s.phase = .fin → s.selecting = false → s.finDue clock opt = false →
      TimedMove s none { s with selecting := true, calls := s.calls + 1 } []
  | finInterrupted {s : TimedSender} : s.phase = .fin → s.selecting = true →
      TimedMove s none { s with selecting := false } []
  | finTimeout {s : TimedSender} : s.phase = .fin → s.selecting = true →
      clock.Elapsed (s.calls - 1) s.calls (msToTimeval opt.timeoutMs) →
      TimedMove s none { s with selecting := false } []
  | finDatagram {s : TimedSender} (b : Bytes) : s.phase = .fin → s.selecting = true →
      TimedMove s (some b) ({ s with selecting := false }.onFinDatagram b) []

end Lambdas

/-! ## Without the times -/

section Untimed

variable (clock : Clock) (opt : Options)

theorem untimed_fill (s : TimedSender) (sent : List Bytes) :
    (s.fill clock opt sent).1.untimed = (fillWindow opt s.untimed sent).1 ∧
      (s.fill clock opt sent).2 = (fillWindow opt s.untimed sent).2 := by
  induction s, sent using TimedSender.fill.induct clock opt with
  | case1 s sent hgoes payload hnil =>
    have hgoes' : s.untimed.eof = false ∧ s.untimed.window.length < opt.window.toNat := by
      simpa [TimedSender.untimed] using hgoes
    have hnil' : nextChunk opt s.untimed = [] := hnil
    rw [TimedSender.fill, if_pos hgoes, if_pos hnil, fillWindow, if_pos hgoes', if_pos hnil']
    exact ⟨rfl, rfl⟩
  | case2 s sent hgoes payload hnil ih =>
    have hgoes' : s.untimed.eof = false ∧ s.untimed.window.length < opt.window.toNat := by
      simpa [TimedSender.untimed] using hgoes
    have hnil' : ¬ nextChunk opt s.untimed = [] := hnil
    have hpush : (s.push clock opt payload).untimed =
        pushChunk opt s.untimed (nextChunk opt s.untimed) := by
      simp [TimedSender.untimed, TimedSender.push, pushChunk, nextChunk, payload]
    rw [TimedSender.fill, if_pos hgoes, if_neg hnil, fillWindow, if_pos hgoes', if_neg hnil', ← hpush]
    exact ih
  | case3 s sent hstays =>
    have hstays' : ¬ (s.untimed.eof = false ∧ s.untimed.window.length < opt.window.toNat) := by
      simpa [TimedSender.untimed] using hstays
    rw [TimedSender.fill, if_neg hstays, fillWindow, if_neg hstays']
    exact ⟨rfl, rfl⟩

theorem map_popTimed (ackno : UInt32) (window : List TimedInFlight) (base : UInt32) :
    ((popTimed ackno window base).1.map (·.packet), (popTimed ackno window base).2) =
      popAcked ackno (window.map (·.packet)) base := by
  induction window generalizing base with
  | nil => rfl
  | cons p window ih =>
    rw [List.map_cons, popTimed, popAcked]
    by_cases h : p.packet.seq ≤ ackno
    · rw [if_pos h, if_pos h, ih]
    · rw [if_neg h, if_neg h]
      rfl

theorem map_resend (calls : Nat) (window : List TimedInFlight) :
    (resend clock calls window).map (·.packet) = window.map (·.packet) := by
  induction window generalizing calls with
  | nil => rfl
  | cons p window ih => rw [resend, List.map_cons, List.map_cons, ih]

theorem untimed_onTimeout (s : TimedSender) :
    (s.onTimeout clock).1.untimed = (onTimeout s.untimed).1 ∧
      (s.onTimeout clock).2 = (onTimeout s.untimed).2 := by
  simp [TimedSender.onTimeout, onTimeout, TimedSender.untimed, map_resend]

theorem untimed_onDatagram (s : TimedSender) (b : Bytes) :
    (s.onDatagram clock opt b).1.untimed = (onDatagram opt s.untimed b).1 ∧
      (s.onDatagram clock opt b).2 = (onDatagram opt s.untimed b).2 := by
  unfold TimedSender.onDatagram onDatagram
  cases parsePacket (recvfrom senderBuf b) with
  | none => exact ⟨rfl, rfl⟩
  | some pkt =>
    dsimp only
    by_cases hack : pkt.type ≠ .ack
    · rw [if_pos hack, if_pos hack]
      exact ⟨rfl, rfl⟩
    · rw [if_neg hack, if_neg hack]
      cases hwindow : s.window with
      | nil =>
        have hnone : s.untimed.window = [] := by rw [TimedSender.untimed, hwindow]; rfl
        rw [hnone]
        exact ⟨rfl, rfl⟩
      | cons front window =>
        have hsome : s.untimed.window = front.packet :: window.map (·.packet) := by
          rw [TimedSender.untimed, hwindow]
          rfl
        rw [hsome]
        dsimp only
        by_cases hle : front.packet.seq ≤ pkt.seq
        · rw [if_pos hle, if_pos hle]
          have hpop := map_popTimed pkt.seq (front :: window) s.base
          have hhandle : TimedSender.untimed { s with
              window := (popTimed pkt.seq (front :: window) s.base).1
              base := (popTimed pkt.seq (front :: window) s.base).2 } = handleAck s.untimed pkt.seq := by
            rw [handleAck_eq, hsome, ← List.map_cons (f := fun p : TimedInFlight => p.packet),
              show s.untimed.base = s.base from rfl, ← hpop]
            rfl
          rw [← hhandle]
          exact untimed_fill clock opt _ []
        · rw [if_neg hle, if_neg hle]
          exact ⟨rfl, rfl⟩

theorem untimed_onFinDatagram (s : TimedSender) (b : Bytes) :
    (s.onFinDatagram b).untimed = onFinDatagram s.untimed b := by
  unfold TimedSender.onFinDatagram onFinDatagram
  cases parsePacket (recvfrom senderBuf b) with
  | none => rfl
  | some pkt =>
    have hnext : s.untimed.nextSeq = s.nextSeq := rfl
    dsimp only
    rw [hnext]
    by_cases h : pkt.type = .ack ∧ pkt.seq = s.nextSeq
    · rw [if_pos h, if_pos h]
      rfl
    · rw [if_neg h, if_neg h]

variable {clock opt}

theorem TimedMove.untimed {s t : TimedSender} {input : Option Bytes} {sent : List Bytes}
    (h : TimedMove clock opt s input t sent) :
    Move opt s.untimed input t.untimed sent ∨ input = none ∧ sent = [] ∧ t.untimed = s.untimed := by
  cases h with
  | begin hp =>
    obtain ⟨hstate, hsent⟩ := untimed_fill clock opt s []
    have hphase : TimedSender.untimed { (s.fill clock opt []).1 with phase := .main } =
        { (fillWindow opt s.untimed []).1 with phase := .main } := by rw [← hstate]; rfl
    rw [hphase, hsent]
    exact .inl (.begin hp)
  | interrupted hp hloops => exact .inr ⟨rfl, rfl, rfl⟩
  | timeout hp hloops htime =>
    obtain ⟨hstate, hsent⟩ := untimed_onTimeout clock s.selected
    rw [hstate, hsent]
    exact .inl (.timeout hp hloops)
  | datagram b hp hloops =>
    obtain ⟨hstate, hsent⟩ := untimed_onDatagram clock opt s.selected b
    rw [hstate, hsent]
    exact .inl (.datagram b hp hloops)
  | leave hp hloops => exact .inl (.leave hp hloops)
  | sendFin hp hselecting hdue => exact .inl (.sendFin hp)
  | waitFin hp hselecting hdue => exact .inr ⟨rfl, rfl, rfl⟩
  | finInterrupted hp hselecting => exact .inr ⟨rfl, rfl, rfl⟩
  | finTimeout hp hselecting htime => exact .inr ⟨rfl, rfl, rfl⟩
  | finDatagram b hp hselecting =>
    rw [untimed_onFinDatagram]
    exact .inl (.finDatagram b hp)

end Untimed

end Rdtp
