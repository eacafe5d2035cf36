import ComputerNetworks.Rdtp.Packet

/-!
# The RDTP sender

`rdt_sender.cpp` as moves between two calls of `select`. The clock only decides
how long `select` waits, so the model lets a timeout happen at every wait.
-/

open Lib

namespace Rdtp

/-! ## Options -/

/-- Options that `parse_args` lets through. -/
structure Options where
  mss : UInt16
  window : UInt32
  timeoutMs : UInt64
  mss_pos : 0 < mss.toNat
  mss_le : mss.toNat ≤ 1400
  window_pos : 0 < window.toNat
  timeout_ge : 10 ≤ timeoutMs.toNat

/-- The checks at the end of `parse_args`, with their messages. -/
def checkOptions (mss : UInt16) (window : UInt32) (timeoutMs : UInt64) : Except String Options :=
  if hm : mss.toNat = 0 ∨ 1400 < mss.toNat then
    .error "Bad MSS: choose 1..1400 (to fit UDP MTU safely)"
  else if hw : window.toNat = 0 then .error "Window must be > 0"
  else if ht : timeoutMs.toNat < 10 then .error "Timeout too small"
  else .ok ⟨mss, window, timeoutMs, by omega, by omega, by omega, by omega⟩

theorem checkOptions_eq_ok_iff {mss : UInt16} {window : UInt32} {timeoutMs : UInt64}
    {opt : Options} : checkOptions mss window timeoutMs = .ok opt ↔
      opt.mss = mss ∧ opt.window = window ∧ opt.timeoutMs = timeoutMs := by
  unfold checkOptions
  constructor
  · intro h
    split_ifs at h
    cases h
    exact ⟨rfl, rfl, rfl⟩
  · rintro ⟨rfl, rfl, rfl⟩
    have := opt.mss_pos
    have := opt.mss_le
    have := opt.window_pos
    have := opt.timeout_ge
    rw [dif_neg (by omega), dif_neg (by omega), dif_neg (by omega)]

/-! ## State -/

structure InFlight where
  seq : UInt32
  bytes : Bytes
  payloadLen : UInt16
  deriving DecidableEq, Repr

/-- Where in `main` the sender is: before the first `fill_window`, at the head of the main loop, at
the head of the FIN loop, or past it with `fin_acked`. -/
inductive Phase where
  | start
  | main
  | fin
  | finished
  deriving DecidableEq, Repr

structure Sender where
  phase : Phase
  /-- What `in` has not given out yet. -/
  unread : Bytes
  window : List InFlight
  base : UInt32
  nextSeq : UInt32
  eof : Bool
  totalSentPayload : UInt64
  retransmits : UInt64
  deriving DecidableEq, Repr

def Sender.fresh (file : Bytes) : Sender :=
  { phase := .start, unread := file, window := [], base := 0, nextSeq := 0, eof := false,
    totalSentPayload := 0, retransmits := 0 }

/-- `rxbuf` of the sender. A longer datagram loses its end in `recvfrom`. -/
def senderBuf : Nat := 2048

/-- What `recvfrom` puts into a buffer of `cap` bytes. -/
def recvfrom (cap : Nat) (datagram : Bytes) : Bytes := datagram.take cap

/-! ## The lambdas of `main` -/

def dataInFlight (seq : UInt32) (payload : Bytes) : InFlight :=
  { seq, payloadLen := UInt16.ofNat payload.length,
    bytes := buildPacket .data seq (some payload) (UInt16.ofNat payload.length) }

/-- What `in.read` gives: up to `mss` bytes. -/
def nextChunk (opt : Options) (s : Sender) : Bytes := s.unread.take opt.mss.toNat

def pushChunk (opt : Options) (s : Sender) (payload : Bytes) : Sender :=
  { s with
    unread := s.unread.drop opt.mss.toNat
    nextSeq := s.nextSeq + 1
    totalSentPayload := s.totalSentPayload + UInt64.ofNat payload.length
    window := s.window ++ [dataInFlight s.nextSeq payload] }

/-- `fill_window`. The second part is what it has handed to `sendto`. -/
def fillWindow (opt : Options) (s : Sender) (sent : List Bytes) : Sender × List Bytes :=
  if s.eof = false ∧ s.window.length < opt.window.toNat then
    if nextChunk opt s = [] then ({ s with eof := true }, sent)
    else
      fillWindow opt (pushChunk opt s (nextChunk opt s))
        (sent ++ [(dataInFlight s.nextSeq (nextChunk opt s)).bytes])
  else (s, sent)
termination_by opt.window.toNat - s.window.length
decreasing_by simp only [pushChunk, List.length_append, List.length_singleton]; omega

/-- The loop of `handle_ack`, on the window and `base`. -/
def popAcked (ackno : UInt32) : List InFlight → UInt32 → List InFlight × UInt32
  | [], base => ([], base)
  | p :: window, base =>
    if p.seq ≤ ackno then popAcked ackno window (ackno + 1) else (p :: window, base)

def handleAck (s : Sender) (ackno : UInt32) : Sender :=
  let (window, base) := popAcked ackno s.window s.base
  { s with window, base }

/-! ## Moves -/

/-- The condition of the main loop. -/
def Sender.loops (s : Sender) : Bool := !s.eof || !s.window.isEmpty

/-- `rc == 0`: every packet in the window goes out again. -/
def onTimeout (s : Sender) : Sender × List Bytes :=
  ({ s with retransmits := s.retransmits + UInt64.ofNat s.window.length }, s.window.map (·.bytes))

def onDatagram (opt : Options) (s : Sender) (datagram : Bytes) : Sender × List Bytes :=
  match parsePacket (recvfrom senderBuf datagram) with
  | none => (s, [])
  | some pkt =>
    if pkt.type ≠ .ack then (s, [])
    else
      match s.window with
      | [] => (s, [])
      | front :: _ =>
        if front.seq ≤ pkt.seq then fillWindow opt (handleAck s pkt.seq) [] else (s, [])

/-- A datagram in the FIN loop, where `fin_seq` is `next_seq`. -/
def onFinDatagram (s : Sender) (datagram : Bytes) : Sender :=
  match parsePacket (recvfrom senderBuf datagram) with
  | none => s
  | some pkt => if pkt.type = .ack ∧ pkt.seq = s.nextSeq then { s with phase := .finished } else s

def finPacket (s : Sender) : Bytes := buildPacket .fin s.nextSeq none 0

/-- `Move opt s input t sent`: from `s`, the sender takes `input` off its socket (or nothing), sends
`sent`, and is at `t`. -/
inductive Move (opt : Options) : Sender → Option Bytes → Sender → List Bytes → Prop where
  | begin {s : Sender} : s.phase = .start →
      Move opt s none { (fillWindow opt s []).1 with phase := .main } (fillWindow opt s []).2
  | timeout {s : Sender} : s.phase = .main → s.loops →
      Move opt s none (onTimeout s).1 (onTimeout s).2
  | datagram {s : Sender} (b : Bytes) : s.phase = .main → s.loops →
      Move opt s (some b) (onDatagram opt s b).1 (onDatagram opt s b).2
  | leave {s : Sender} : s.phase = .main → s.loops = false →
      Move opt s none { s with phase := .fin } []
  | sendFin {s : Sender} : s.phase = .fin → Move opt s none s [finPacket s]
  | finDatagram {s : Sender} (b : Bytes) : s.phase = .fin →
      Move opt s (some b) (onFinDatagram s b) []

end Rdtp
