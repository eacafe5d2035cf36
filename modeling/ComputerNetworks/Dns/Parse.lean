import ComputerNetworks.Lib.Checked
import ComputerNetworks.Dns.Message

/-!
# The DNS decoder

`parseDNSName`, `parseResourceRecord` and `parseDNSResponse`. Every read checks its index, so
that a read outside the packet would show.
-/

open Lib Lib.Bytes

namespace Dns

/-! ## Names -/

/-- The locals of `parseDNSName`, with the offset that it was given. -/
structure NameState where
  name : Bytes
  offset : Nat
  startOffset : Nat
  jumped : Bool
  jumpCount : Nat
  deriving DecidableEq, Repr

def NameState.start (offset : Nat) : NameState :=
  { name := [], offset, startOffset := offset, jumped := false, jumpCount := 0 }

def maxJumps : Nat := 10

def pointer (length low : UInt8) : UInt16 := ((length &&& 0x3F).toUInt16 <<< 8) ||| low.toUInt16

def NameState.jump (s : NameState) (target : Nat) : NameState :=
  { s with
    startOffset := if s.jumped then s.startOffset else s.offset + 2
    jumped := true
    offset := target
    jumpCount := s.jumpCount + 1 }

def NameState.append (s : NameState) (label : Bytes) : NameState :=
  { s with
    name := (if s.name ≠ [] then s.name ++ [dot] else s.name) ++ label
    offset := s.offset + (label.length + 1) }

/-- One turn of the loop of `parseDNSName`. -/
def nameTurn (packet : Bytes) (s : NameState) : Except Fault (Turn NameState NameState) :=
  if s.offset < packet.length ∧ s.jumpCount < maxJumps then do
    let length ← packet.byteAt s.offset
    if length &&& 0xC0 = 0xC0 then
      if packet.length ≤ s.offset + 1 then return .leave s
      let low ← packet.byteAt (s.offset + 1)
      return .next (s.jump (pointer length low).toNat)
    else if length = 0 then return .leave { s with offset := s.offset + 1 }
    else if packet.length ≤ s.offset + length.toNat then return .leave s
    else
      let label ← packet.bytesAt (s.offset + 1) length.toNat
      return .next (s.append label)
  else return .leave s

/-- Turns enough for every name: a jump starts a new way through the packet. -/
def nameTurns (packet : Bytes) : Nat := (maxJumps + 1) * (packet.length + 1)

/-- The name, and the offset that the call leaves behind. -/
def parseDNSName (packet : Bytes) (offset : Nat) : Except Fault (Bytes × Nat) := do
  let s ← loop (nameTurn packet) (nameTurns packet) (.start offset)
  return (s.name, if s.jumped then s.startOffset else s.offset)

/-! ## Records -/

/-- The fields that depend on the type of a record. `nameOffset` is where its data starts. -/
def parseTyped (packet : Bytes) (nameOffset : Nat) (rr : DNSResourceRecord) :
    Except Fault DNSResourceRecord :=
  if rr.type = .A ∧ rr.dataLength = 4 then
    return { rr with ipv4Address := inetNtop4 rr.data }
  else if rr.type = .AAAA ∧ rr.dataLength = 16 then
    return { rr with ipv6Address := ipv6ToString rr.data }
  else if rr.type = .NS ∨ rr.type = .CNAME then do
    let (nsName, _) ← parseDNSName packet nameOffset
    return { rr with nsName, cname := if rr.type = .CNAME then nsName else rr.cname }
  else return rr

/-- The record, or `none` for `false`, and the offset that the call leaves behind. -/
def parseResourceRecord (packet : Bytes) (offset : Nat) :
    Except Fault (Option DNSResourceRecord × Nat) :=
  if packet.length ≤ offset then return (none, offset)
  else do
    let (name, offset) ← parseDNSName packet offset
    if packet.length < offset + 10 then return (none, offset)
    let type ← packet.u16At offset
    let class_ ← packet.u16At (offset + 2)
    let ttl ← packet.u32At (offset + 4)
    let dataLength ← packet.u16At (offset + 8)
    let offset := offset + 10
    if packet.length < offset + dataLength.toNat then return (none, offset)
    let data ← packet.bytesAt offset dataLength.toNat
    let rr ← parseTyped packet offset
      { name, type := ⟨type⟩, class_ := ⟨class_⟩, ttl, dataLength, data, ipv4Address := [],
        ipv6Address := [], nsName := [], cname := [] }
    return (some rr, offset + dataLength.toNat)

/-! ## Responses -/

/-- `sizeof(DNSHeader)`. -/
def headerSize : Nat := 12

/-- The loop over the questions: the offset behind them, or `none` where the code returns
`false`. -/
def skipQuestions (packet : Bytes) : Nat → Nat → Except Fault (Option Nat)
  | 0, offset => return some offset
  | count + 1, offset =>
    if offset < packet.length then do
      let (_, offset) ← parseDNSName packet offset
      if packet.length < offset + 4 then return none
      skipQuestions packet count (offset + 4)
    else return some offset

/-- The loop over one section: the records, and the offset where it stops. -/
def parseSection (packet : Bytes) : Nat → Nat → Except Fault (List DNSResourceRecord × Nat)
  | 0, offset => return ([], offset)
  | count + 1, offset =>
    if offset < packet.length then do
      match ← parseResourceRecord packet offset with
      | (some rr, offset) =>
        let (rrs, offset) ← parseSection packet count offset
        return (rr :: rrs, offset)
      | (none, offset) => return ([], offset)
    else return ([], offset)

structure Sections where
  answers : List DNSResourceRecord
  authority : List DNSResourceRecord
  additional : List DNSResourceRecord
  deriving DecidableEq, Repr

/-- `flags & 0x0F`. -/
def rcode (flags : UInt16) : UInt16 := flags &&& 0x0F

/-- `none` where the code returns `false`. -/
def parseDNSResponse (response : Bytes) : Except Fault (Option Sections) :=
  if response.length < headerSize then return none
  else do
    let flags ← response.u16At 2
    if rcode flags = 3 then return none
    else if rcode flags ≠ 0 then return none
    else
      let qdcount ← response.u16At 4
      match ← skipQuestions response qdcount.toNat headerSize with
      | none => return none
      | some offset =>
        let ancount ← response.u16At 6
        let (answers, offset) ← parseSection response ancount.toNat offset
        let nscount ← response.u16At 8
        let (authority, offset) ← parseSection response nscount.toNat offset
        let arcount ← response.u16At 10
        let (additional, _) ← parseSection response arcount.toNat offset
        return some { answers, authority, additional }

end Dns
