import ComputerNetworks.Lib.Crlf
import ComputerNetworks.Lib.Dialogue
import ComputerNetworks.Lib.Number

/-!
# The SMTP client

`SMTPClient` and `main` of `smtp_client.cpp`. The socket is the list of what its reads give, the list
of what its writes give, and a trace of what has happened on it.
-/

open Lib Lib.Crlf Lib.Bytes Lib.Ctype Lib.Dialogue

namespace Smtp

abbrev Event := Dialogue.Event Bytes Bytes

/-- `unread` has what each `read` of one byte gives: the byte, or `none` for a result that is not
positive. Behind it the connection is closed. `outcomes` has what each `write` gives; behind it they
fail. `trace` has the writes, the messages about a broken connection and the replies. -/
structure Client where
  sockfd : Int
  clientDomain : Bytes
  unread : List (Option UInt8)
  outcomes : List Int
  trace : List Event
  deriving DecidableEq, Repr

/-- `SMTPClient(server, domain)`, and the other end that it is going to meet. -/
def Client.start (clientDomain : Bytes) (unread : List (Option UInt8)) (outcomes : List Int) : Client :=
  { sockfd := -1, clientDomain, unread, outcomes, trace := [] }

/-! ## Commands and replies -/

def write (data : Bytes) : StateM Client Int := fun s =>
  match s.outcomes with
  | [] => (-1, { s with trace := s.trace ++ [.wrote data (-1)] })
  | sent :: outcomes => (sent, { s with outcomes, trace := s.trace ++ [.wrote data sent] })

def sendCommand (command : Bytes) : StateM Client Bool := do
  let sent ← write (command ++ crlf)
  if sent < 0 then return false
  return true

/-- Whether `response_complete` holds behind a line. `full` ends in the line. -/
def responseComplete (full line : Bytes) : Bool :=
  match line with
  | a :: b :: c :: separator :: _ =>
    if isdigit a && isdigit b && isdigit c then
      if separator = space then true
      else if separator = hyphen then false
      else true
    else decide (line.length < full.length)
  | _ => false

/-- The two loops of `receiveResponse`: `line` is `current_line`, and `full` the lines before it.
There is no response when a read fails. -/
def receiveFrom (full line : Bytes) : List (Option UInt8) → Option Bytes × List (Option UInt8)
  | [] => (none, [])
  | none :: rest => (none, rest)
  | some ch :: rest =>
    if 2 ≤ (line ++ [ch]).length ∧ (line ++ [ch]).drop ((line ++ [ch]).length - 2) = crlf then
      if responseComplete (full ++ (line ++ [ch])) (line ++ [ch]) then
        (some (full ++ (line ++ [ch])), rest)
      else receiveFrom (full ++ (line ++ [ch])) [] rest
    else receiveFrom full (line ++ [ch]) rest

/-- A connection that breaks gives the empty response. -/
def receiveResponse : StateM Client Bytes := fun s =>
  match receiveFrom [] [] s.unread with
  | (none, unread) => ([], { s with unread, trace := s.trace ++ [.broken, .received []] })
  | (some response, unread) =>
    (response, { s with unread, trace := s.trace ++ [.received response] })

def checkResponseCode (response expectedCode : Bytes) : Bool :=
  if response.length < 3 then false
  else response.take 3 = expectedCode

/-! ## The session -/

/-- How far `connect` comes: `socket` fails, the host has no address, the address is no address,
`::connect` fails, or there is a connection. -/
inductive Dial where
  | noSocket
  | unresolved
  | badAddress
  | refused
  | connected (fd : Nat)
  deriving DecidableEq, Repr

def connect (dial : Dial) : StateM Client Bool := do
  match dial with
  | .noSocket | .unresolved | .badAddress | .refused =>
    modify fun s => { s with sockfd := -1 }
    return false
  | .connected fd =>
    modify fun s => { s with sockfd := fd }
    let response ← receiveResponse
    if response.isEmpty || !checkResponseCode response (ofString "220") then return false
    return true

def emailContent (fromEmail toEmail subject body : Bytes) : Bytes :=
  ofString "From: " ++ fromEmail ++ crlf ++
  (ofString "To: " ++ toEmail ++ crlf) ++
  (ofString "Subject: " ++ subject ++ crlf) ++
  (ofString "Content-Type: text/plain; charset=utf-8" ++ crlf) ++
  crlf ++
  (body ++ crlf) ++
  (ofString "." ++ crlf)

def sendEmail (fromEmail toEmail subject body : Bytes) : StateM Client Bool := do
  if !(← sendCommand (ofString "EHLO " ++ (← get).clientDomain)) then return false
  let response ← receiveResponse
  if !checkResponseCode response (ofString "250") then return false
  if !(← sendCommand (ofString "MAIL FROM:<" ++ fromEmail ++ ofString ">")) then return false
  let response ← receiveResponse
  if !checkResponseCode response (ofString "250") then return false
  if !(← sendCommand (ofString "RCPT TO:<" ++ toEmail ++ ofString ">")) then return false
  let response ← receiveResponse
  if !checkResponseCode response (ofString "250") then return false
  if !(← sendCommand (ofString "DATA")) then return false
  let response ← receiveResponse
  if !checkResponseCode response (ofString "354") then return false
  let sent ← write (emailContent fromEmail toEmail subject body)
  if sent < 0 then return false
  let response ← receiveResponse
  if !checkResponseCode response (ofString "250") then return false
  return true

def disconnect : StateM Client Unit := do
  if 0 ≤ (← get).sockfd then
    if ← sendCommand (ofString "QUIT") then
      -- What the reply is makes no difference but for the message that is printed.
      let _ ← receiveResponse
    modify fun s => { s with sockfd := -1 }

/-- `~SMTPClient`. -/
def destroy : StateM Client Unit := do
  if (← get).sockfd ≠ -1 then disconnect

/-- `main` behind its reading of the arguments: the exit code. -/
def main (dial : Dial) (fromEmail toEmail subject body : Bytes) : StateM Client Nat := do
  if !(← connect dial) then
    destroy
    return 1
  if !(← sendEmail fromEmail toEmail subject body) then
    disconnect
    destroy
    return 1
  disconnect
  destroy
  return 0

end Smtp
