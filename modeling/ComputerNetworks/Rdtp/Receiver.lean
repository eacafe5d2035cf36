import ComputerNetworks.Rdtp.Sender

/-!
# The RDTP receiver

`rdt_receiver.cpp`, one turn of its loop at a time. An address is what
`recvfrom` reports as the source; the code never looks into it.
-/

open Lib

namespace Rdtp

variable {Addr : Type}

/-- `static_cast<uint32_t>(-1)`: no data yet. -/
def noDataYet : UInt32 := 0xFFFFFFFF

structure Receiver (Addr : Type) where
  expected : UInt32
  lastInOrderAck : UInt32
  /-- `peer`, once `have_peer` is set. -/
  peer : Option Addr
  out : Bytes
  bytesWritten : Nat
  /-- The loop was left: a FIN was accepted. -/
  finished : Bool

def Receiver.fresh : Receiver Addr :=
  { expected := 0, lastInOrderAck := noDataYet, peer := none, out := [], bytesWritten := 0,
    finished := false }

/-- `rxbuf` of the receiver, 64 KiB. -/
def receiverBuf : Nat := 64 * 1024

def ackPacket (ackno : UInt32) : Bytes := buildPacket .ack ackno none 0

def Receiver.sendAck (r : Receiver Addr) (ackno : UInt32) : List (Addr × Bytes) :=
  match r.peer with
  | none => []
  | some addr => [(addr, ackPacket ackno)]

/-- The ACK for a packet out of order: the last one in order again, if there was one. -/
def Receiver.ackAgain (r : Receiver Addr) : List (Addr × Bytes) :=
  if r.lastInOrderAck ≠ noDataYet then r.sendAck r.lastInOrderAck else []

def Receiver.meet (r : Receiver Addr) (source : Addr) : Receiver Addr :=
  match r.peer with
  | none => { r with peer := some source }
  | some _ => r

def Receiver.accept (r : Receiver Addr) (payload : Bytes) : Receiver Addr :=
  let r :=
    if payload.isEmpty then r
    else { r with out := r.out ++ payload, bytesWritten := r.bytesWritten + payload.length }
  { r with lastInOrderAck := r.expected, expected := r.expected + 1 }

def Receiver.onPacket (r : Receiver Addr) (pkt : ParsedPacket) :
    Receiver Addr × List (Addr × Bytes) :=
  match pkt.type with
  | .data =>
    if pkt.seq = r.expected then
      let r := r.accept pkt.payload
      (r, r.sendAck r.lastInOrderAck)
    else (r, r.ackAgain)
  | .fin =>
    if pkt.seq = r.expected then ({ r with finished := true }, r.sendAck pkt.seq)
    else (r, r.ackAgain)
  | .ack => (r, [])

/-- One turn of the loop: the state after it, and the ACKs with where they go. -/
def Receiver.onDatagram (r : Receiver Addr) (source : Addr) (datagram : Bytes) :
    Receiver Addr × List (Addr × Bytes) :=
  match parsePacket (recvfrom receiverBuf datagram) with
  | none => (r, [])
  | some pkt => (r.meet source).onPacket pkt

end Rdtp
