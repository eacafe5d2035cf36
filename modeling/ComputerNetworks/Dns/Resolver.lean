import ComputerNetworks.Lib.Traced
import ComputerNetworks.Dns.Query

/-!
# The iterative resolver

`queryUDP`, `queryTCP`, `iterativeResolve` and `resolve`. The network answers each query by all that
has happened so far, in any way it likes.
-/

open Lib Lib.Bytes Lib.Traced

namespace Dns

/-! ## The network -/

/-- What the resolver does, as its debug log would have it. -/
inductive Event where
  /-- A query is to be built for this name. -/
  | asked (domain : Bytes)
  | udp (server query : Bytes)
  | tcp (server query : Bytes)
  /-- A response to a question of this type was parsed. -/
  | received (type : DNSRecordType) (response : Bytes)
  deriving DecidableEq, Repr

structure Network where
  /-- `time(nullptr)`. -/
  time : List Event → Nat
  /-- The datagram that comes back, or `none` for no socket, a failed send or a timeout. -/
  udp : List Event → Option Bytes
  /-- What `recv` can give out, piece by piece, or `none` for no connection or a failed send. -/
  tcp : List Event → Option (List Bytes)

/-- `time(nullptr) & 0xFFFF`. -/
def Network.queryId (net : Network) (tr : List Event) : UInt16 := UInt16.ofNat (net.time tr)

/-- Why a run stops without a result. -/
inductive Stop where
  | thrown (what : String)
  | fault (f : Fault)
  /-- The calls of `iterativeResolve` nest deeper than the run was given to go. -/
  | tooDeep
  deriving DecidableEq, Repr

abbrev Run := Traced Event Stop

/-- `buffer` in `queryUDP`. -/
def udpBuffer : Nat := 512

/-- The response and the TC flag, or `none` for `false`. -/
def queryUDP (net : Network) (server query : Bytes) (expectedId : UInt16) :
    Run (Option (Bytes × Bool)) := do
  log (.udp server query)
  match ← look net.udp with
  | none => return none
  | some datagram =>
    let response := datagram.take udpBuffer
    if response.length < headerSize then return none
    else if read16 response ≠ expectedId then return none
    else return some (response, read16 (response.drop 2) &&& 0x0200 ≠ 0)

/-- One `recv` of up to `len` bytes, and what is left to receive. -/
def recv (len : Nat) : List Bytes → Bytes × List Bytes
  | [] => ([], [])
  | piece :: pieces =>
    (piece.take len, if piece.length ≤ len then pieces else piece.drop len :: pieces)

/-- The response, or `none` for `false`. -/
def queryTCP (net : Network) (server query : Bytes) (expectedId : UInt16) :
    Run (Option Bytes) := do
  log (.tcp server query)
  match ← look net.tcp with
  | none => return none
  | some pieces =>
    let (lengthBytes, pieces) := recv 2 pieces
    if lengthBytes.length ≠ 2 then return none
    else
      let responseLength := (read16 lengthBytes).toNat
      let (response, _) := recv responseLength pieces
      if response.length ≠ responseLength then return none
      else if response.length < headerSize then return none
      else if read16 response ≠ expectedId then return none
      else return some response

def ask (net : Network) (server domain : Bytes) (type : DNSRecordType) : Run (Option Bytes) := do
  log (.asked domain)
  let queryId ← look net.queryId
  let query ← ofExcept Stop.thrown (createDNSQuery queryId domain type)
  match ← queryUDP net server query queryId with
  | none => return none
  | some (response, false) => return some response
  | some (_, true) => queryTCP net server query queryId

/-! ## Reading a response -/

/-- The locals of the loop over the answers. -/
structure Found where
  results : List Bytes
  finalAnswer : Bool
  cnameTarget : Bytes

/-- One turn of the loop over the answers. -/
def scanAnswer (type : DNSRecordType) (f : Found) (rr : DNSResourceRecord) : Found :=
  if rr.type = type then
    if type = .A ∧ rr.ipv4Address ≠ [] then
      { f with results := f.results ++ [rr.ipv4Address], finalAnswer := true }
    else if type = .AAAA ∧ rr.ipv6Address ≠ [] then
      { f with results := f.results ++ [rr.ipv6Address], finalAnswer := true }
    else if type = .NS ∧ rr.nsName ≠ [] then
      { f with results := f.results ++ [rr.nsName], finalAnswer := true }
    else f
  else if rr.type = .CNAME ∧ rr.cname ≠ [] then { f with cnameTarget := rr.cname }
  else f

def scanAnswers (type : DNSRecordType) (answers : List DNSResourceRecord) (results : List Bytes) :
    Found :=
  answers.foldl (scanAnswer type) { results, finalAnswer := false, cnameTarget := [] }

/-- `next_servers`: the NS names of the authority section. -/
def nextServers (authority : List DNSResourceRecord) : List Bytes :=
  (authority.filter fun rr => rr.type = .NS ∧ rr.nsName ≠ []).map (·.nsName)

def addresses (additional : List DNSResourceRecord) : List Bytes :=
  (additional.filter fun rr => rr.type = .A ∧ rr.ipv4Address ≠ []).map (·.ipv4Address)

/-! ## `iterativeResolve` -/

def maxIterations : Nat := 20
def maxServerTries : Nat := 2
def maxTotalFailures : Nat := 5

def rootServers : List Bytes :=
  ["198.41.0.4", "199.9.14.201", "192.33.4.12", "199.7.91.13", "192.203.230.10", "192.5.5.241",
    "192.112.36.4", "198.97.190.53", "192.36.148.17", "192.58.128.30", "193.0.14.129",
    "199.7.83.42", "202.12.27.33"].map fun ip => ip.toUTF8.toList

/-- The locals of `iterativeResolve`, with the vector that it appends to. -/
structure ResolveState where
  servers : List Bytes
  serverTries : Nat
  totalFailures : Nat
  results : List Bytes

/-- A nested call of `iterativeResolve`, from the root servers and with an empty vector. -/
abbrev Nested := Bytes → DNSRecordType → Run (Bool × List Bytes)

/-- The CNAME step: the results if the target could be resolved. -/
def followCname (nested : Nested) (type : DNSRecordType) (iterations : Nat) (found : Found) :
    Run (Option (List Bytes)) :=
  if found.cnameTarget ≠ [] ∧ iterations < maxIterations - 5 then do
    let (ok, cnameResults) ← nested found.cnameTarget type
    return if ok then some (found.results ++ cnameResults) else none
  else return none

def resolveServer (nested : Nested) (name : Bytes) : Run (Option (List Bytes)) := do
  let (ok, ips) ← nested name .A
  return if ok then some ips else none

def resolveServers (nested : Nested) (iterations : Nat) : List Bytes → Run (Option (List Bytes))
  | [] => return none
  | first :: rest =>
    if iterations < maxIterations - 3 then do
      match ← resolveServer nested first with
      | some ips => return some ips
      | none =>
        match rest with
        | [] => return none
        | second :: _ => resolveServer nested second
    else return none

/-- The servers that a response refers to: the addresses that it gives, or those that its NS names
resolve to. -/
def referredServers (nested : Nested) (iterations : Nat) (sections : Sections) :
    Run (Option (List Bytes)) :=
  if addresses sections.additional = [] ∧ nextServers sections.authority ≠ [] then
    resolveServers nested iterations (nextServers sections.authority)
  else return some (addresses sections.additional)

def referral (nested : Nested) (iterations : Nat) (s : ResolveState) (sections : Sections) :
    Run (Turn ResolveState (Bool × List Bytes)) := do
  match ← referredServers nested iterations sections with
  | none => return .leave (false, s.results)
  | some servers =>
    if servers = [] then return .leave (false, s.results)
    else return .next { s with servers, serverTries := 0 }

/-- What follows a response: its answers, the CNAME step, the referral step. -/
def onResponse (nested : Nested) (type : DNSRecordType) (iterations : Nat) (s : ResolveState)
    (sections : Sections) : Run (Turn ResolveState (Bool × List Bytes)) :=
  let found := scanAnswers type sections.answers s.results
  if found.finalAnswer then return .leave (true, found.results)
  else do
    match ← followCname nested type iterations found with
    | some results => return .leave (true, results)
    | none => referral nested iterations { s with results := found.results } sections

/-- One turn of the loop of `iterativeResolve`. -/
def iteration (net : Network) (nested : Nested) (domain : Bytes) (type : DNSRecordType)
    (iterations : Nat) (s : ResolveState) : Run (Turn ResolveState (Bool × List Bytes)) :=
  match s.servers with
  | [] => return .leave (false, s.results)
  | server :: others =>
    if maxServerTries ≤ s.serverTries then return .leave (false, s.results)
    else if maxTotalFailures ≤ s.totalFailures then return .leave (false, s.results)
    else do
      match ← ask net server domain type with
      | none =>
        if others = [] then return .leave (false, s.results)
        else
          return .next
            { s with
              servers := others
              serverTries := s.serverTries + 1
              totalFailures := s.totalFailures + 1 }
      | some response =>
        let s := { s with serverTries := 0, totalFailures := 0 }
        match ← ofExcept Stop.fault (parseDNSResponse response) with
        | none => return .next { s with servers := others }
        | some sections =>
          log (.received type response)
          onResponse nested type iterations s sections

/-- `iterativeResolve`, where calls may nest `nest` deep. -/
def iterativeResolve (net : Network) :
    Nat → Bytes → DNSRecordType → List Bytes → List Bytes → Run (Bool × List Bytes)
  | 0, _, _, _, _ => stop .tooDeep
  | nest + 1, domain, type, nameServers, results =>
    upTo
      (fun left s =>
        iteration net (fun domain type => iterativeResolve net nest domain type rootServers [])
          domain type (maxIterations - left) s)
      (fun s => (false, s.results)) maxIterations
      { servers := nameServers, serverTries := 0, totalFailures := 0, results }

/-! ## `resolve` -/

def isValidChar (c : UInt8) : Bool :=
  (0x61 ≤ c && c ≤ 0x7A) || (0x41 ≤ c && c ≤ 0x5A) || (0x30 ≤ c && c ≤ 0x39) ||
    c == hyphen || c == dot

def isValidDomainName (domain : Bytes) : Bool :=
  if domain = [] ∨ 253 < domain.length then false else domain.all isValidChar

/-- `resolve` clears the vector that it is given. -/
def resolve (net : Network) (nest : Nat) (domain : Bytes) (type : DNSRecordType) :
    Run (Bool × List Bytes) :=
  if isValidDomainName domain then iterativeResolve net nest domain type rootServers []
  else return (false, [])

end Dns
