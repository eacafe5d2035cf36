import ComputerNetworks.Lib.System
import ComputerNetworks.Lib.Channel
import ComputerNetworks.Lib.Chunks
import ComputerNetworks.Rdtp.Codec
import ComputerNetworks.Rdtp.Receiver

/-!
# One transfer: a sender, a receiver and the network between them

The network may lose, delay, copy and reorder whatever is in flight, and may put
datagrams of its own in front of either side.
-/

open Lib Lib.Channel

namespace Rdtp

variable {Addr : Type}

structure Config (Addr : Type) where
  opt : Options
  file : Bytes
  senderAddr : Addr
  /-- Datagrams from elsewhere that the network may hand to the sender. -/
  noise : Bytes → Prop

/-- What has happened so far. No step looks at it. -/
structure History where
  /-- ACK numbers that the main loop of the sender took from its socket. -/
  acksTaken : List UInt32
  /-- ACK datagrams that the receiver sent on a DATA packet. -/
  dataReplies : List Bytes

structure State (Addr : Type) where
  sender : Sender
  receiver : Receiver Addr
  /-- In flight to the receiver, with the source address. -/
  toReceiver : List (Addr × Bytes)
  /-- In flight from the receiver, with the destination address. -/
  toSender : List (Addr × Bytes)
  history : History

def State.fresh (file : Bytes) : State Addr :=
  { sender := .fresh file, receiver := .fresh, toReceiver := [], toSender := [],
    history := ⟨[], []⟩ }

/-- The number in a datagram that is an ACK. -/
def ackNumber (cap : Nat) (datagram : Bytes) : List UInt32 :=
  match parsePacket (recvfrom cap datagram) with
  | some pkt => if pkt.type = .ack then [pkt.seq] else []
  | none => []

def isData (datagram : Bytes) : Bool :=
  match parsePacket (recvfrom receiverBuf datagram) with
  | some pkt => pkt.type = .data
  | none => false

/-- The sender has moved from `s.sender` to `t`, taking `input` and sending `sent`. -/
def State.senderMoved (cfg : Config Addr) (s : State Addr) (input : Option Bytes) (t : Sender)
    (sent : List Bytes) : State Addr :=
  { s with
    sender := t
    toReceiver := s.toReceiver ++ sent.map fun b => (cfg.senderAddr, b)
    history :=
      { s.history with
        acksTaken :=
          match input with
          | some b =>
            if s.sender.phase = .main then ackNumber senderBuf b ++ s.history.acksTaken
            else s.history.acksTaken
          | none => s.history.acksTaken } }

/-- The receiver has taken one datagram off its socket. -/
def State.receiverMoved (s : State Addr) (source : Addr) (datagram : Bytes) : State Addr :=
  let (r, acks) := s.receiver.onDatagram source datagram
  { s with
    receiver := r
    toSender := s.toSender ++ acks
    history :=
      { s.history with
        dataReplies :=
          if isData datagram then acks.map (·.2) ++ s.history.dataReplies
          else s.history.dataReplies } }

/-- One step of the system. -/
inductive Step (cfg : Config Addr) : State Addr → State Addr → Prop where
  | senderAlone {s : State Addr} {t : Sender} {sent : List Bytes} :
      Move cfg.opt s.sender none t sent → Step cfg s (s.senderMoved cfg none t sent)
  | senderTakes {s : State Addr} {t : Sender} {sent : List Bytes} {b : Bytes}
      {rest : List (Addr × Bytes)} :
      Takes s.toSender (cfg.senderAddr, b) rest → Move cfg.opt s.sender (some b) t sent →
      Step cfg s ({ s with toSender := rest }.senderMoved cfg (some b) t sent)
  | senderNoise {s : State Addr} {t : Sender} {sent : List Bytes} {b : Bytes} :
      cfg.noise b → Move cfg.opt s.sender (some b) t sent →
      Step cfg s (s.senderMoved cfg (some b) t sent)
  | receiverTakes {s : State Addr} {source : Addr} {b : Bytes} {rest : List (Addr × Bytes)} :
      s.receiver.finished = false → Takes s.toReceiver (source, b) rest →
      Step cfg s ({ s with toReceiver := rest }.receiverMoved source b)
  /-- The receiver takes bytes from anywhere that `parse_packet` refuses. -/
  | receiverNoise {s : State Addr} (source : Addr) {b : Bytes} :
      s.receiver.finished = false → parsePacket (recvfrom receiverBuf b) = none →
      Step cfg s (s.receiverMoved source b)
  | faultToReceiver {s : State Addr} {c : List (Addr × Bytes)} :
      Fault s.toReceiver c → Step cfg s { s with toReceiver := c }
  | faultToSender {s : State Addr} {c : List (Addr × Bytes)} :
      Fault s.toSender c → Step cfg s { s with toSender := c }

/-- A transfer of the file: both sides freshly started, nothing in flight. -/
def transfer (cfg : Config Addr) : System (State Addr) where
  init s := s = .fresh cfg.file
  step := Step cfg

/-! ## The file in segments -/

def Config.segment (cfg : Config Addr) (k : Nat) : Bytes :=
  Chunks.chunk cfg.opt.mss.toNat cfg.file k

def Config.segmentCount (cfg : Config Addr) : Nat := Chunks.count cfg.opt.mss.toNat cfg.file

/-- The first `n` segments together. -/
def Config.prefixOf (cfg : Config Addr) (n : Nat) : Bytes :=
  ((List.range n).map cfg.segment).flatten

def Config.entry (cfg : Config Addr) (k : Nat) : InFlight :=
  dataInFlight (UInt32.ofNat k) (cfg.segment k)

def Config.entries (cfg : Config Addr) (a b : Nat) : List InFlight :=
  (List.range' a (b - a)).map cfg.entry

end Rdtp
