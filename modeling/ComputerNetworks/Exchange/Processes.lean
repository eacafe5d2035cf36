import ComputerNetworks.Lib.Checked
import ComputerNetworks.Lib.Crlf
import ComputerNetworks.Lib.Duplex
import ComputerNetworks.Lib.Fields
import ComputerNetworks.Lib.Machine
import ComputerNetworks.Lib.Number

/-!
# Client and server

`client.cpp`, and the child process of `server.cpp` that serves one connection. A process goes on with what
its `send` or `recv` gives.
-/

open Lib Lib.Bytes Lib.Duplex Lib.Fields Lib.Number
open Lib.Crlf (lf)

namespace Exchange

/-- The size of `msg`, `buf` and `resp`. -/
def bufferSize : Nat := 512

/-! ## `send_all` -/

def sendAllGuard (len total : Nat) : Turn Nat Int := if total < len then .next total else .leave 0

def sendAllTurn (len total : Nat) : SendResult → Turn Nat Int
  | .interrupted => .next total
  | .failed => .leave (-1)
  | .sent n => if n = 0 then .leave (-1) else sendAllGuard len (total + n)

/-- `send_all` of `len` bytes, as far as the results of `send` go. -/
def sendAll (len : Nat) (sends : List SendResult) : Turn Nat Int :=
  (sendAllGuard len 0).feed (sendAllTurn len) sends

/-! ## `recv_until_two_newlines` -/

/-- `out`, up to `used`, and `newline_count`. -/
structure Received where
  out : Bytes
  newlineCount : Nat
  deriving DecidableEq, Repr

def Received.empty : Received := ⟨[], 0⟩

def recvGuard (cap : Nat) (s : Received) : Turn Received (Option Bytes) :=
  if s.out.length + 1 < cap then .next s else .leave (some s.out)

/-- It leaves with the bytes in front of the terminator, or with nothing where it returns -1. -/
def recvTurn (cap : Nat) (s : Received) : RecvResult → Turn Received (Option Bytes)
  | .interrupted => .next s
  | .failed => .leave none
  | .closed => .leave (some s.out)
  | .byte c =>
    let out := s.out ++ [c]
    if c = lf then
      if 2 ≤ s.newlineCount + 1 then .leave (some out) else recvGuard cap ⟨out, s.newlineCount + 1⟩
    else recvGuard cap ⟨out, s.newlineCount⟩

/-! ## Lines -/

/-- The string at the front of the buffer, and the one at `second_line`. -/
structure Lines where
  first : Bytes
  second : Option Bytes
  deriving DecidableEq, Repr

/-- `strchr`, and the NUL that is put at what it finds. -/
def parseLines (buf : Bytes) : Lines :=
  let text := buf.takeWhile (· ≠ 0)
  match cut lf text with
  | some (first, second) => ⟨first, some second⟩
  | none => ⟨text, none⟩

def Lines.number (lines : Lines) : Int32 :=
  match lines.second with
  | some line => atoi line
  | none => 0

/-- `snprintf` of the two lines into a buffer, and the check of what it returns. -/
def formatLines (name : Bytes) (number : Int32) : Option Bytes :=
  let text := name ++ lf :: (intText number.toInt ++ [lf])
  if bufferSize ≤ text.length then none else some text

/-! ## The child process -/

def serverName : Bytes := ofString "Server of Computer Networks"

def serverNumber : Int32 := 50

inductive Signal where
  | usr1
  deriving DecidableEq, Repr

/-- `buf` is there from the end of `recv_until_two_newlines` on. -/
inductive Child where
  | receiving (s : Received)
  | sending (buf resp : Bytes) (total : Nat)
  | exited (code : Nat) (buf : Option Bytes)
  deriving DecidableEq, Repr

/-- The child asks for a shutdown. -/
def Lines.outOfRange (lines : Lines) : Bool :=
  lines.second.isSome && (decide (lines.number < 1) || decide (100 < lines.number))

/-- Around and behind `send_all`. -/
def Child.sends (buf resp : Bytes) : Turn Nat Int → Child × List Signal
  | .next total => (.sending buf resp total, [])
  | .leave r =>
    if r < 0 then (.exited 1 (some buf), [])
    else (.exited 0 (some buf), if (parseLines buf).outOfRange then [.usr1] else [])

/-- Around and behind `recv_until_two_newlines`. -/
def Child.recvs : Turn Received (Option Bytes) → Child × List Signal
  | .next s => (.receiving s, [])
  | .leave none => (.exited 1 none, [])
  | .leave (some buf) =>
    match formatLines serverName serverNumber with
    | none => (.exited 1 (some buf), [])
    | some resp => Child.sends buf resp (sendAllGuard resp.length 0)

def Child.step : Child → Result → Child × List Signal
  | .receiving s, .recv r => Child.recvs (recvTurn bufferSize s r)
  | .sending buf resp total, .send r => Child.sends buf resp (sendAllTurn resp.length total r)
  | s, _ => (s, [])

def child : Machine Child Result Signal := ⟨Child.step⟩

def Child.start : Child := (Child.recvs (recvGuard bufferSize .empty)).1

/-! ## The client -/

/-- `main` of the client behind `connect`. -/
inductive Client where
  | sending (msg : Bytes) (total : Nat)
  | receiving (s : Received)
  | exited (code : Nat) (resp : Option Bytes)
  deriving DecidableEq, Repr

def Client.recvs : Turn Received (Option Bytes) → Client
  | .next s => .receiving s
  | .leave none => .exited 1 none
  | .leave (some resp) => .exited 0 (some resp)

def Client.sends (msg : Bytes) : Turn Nat Int → Client
  | .next total => .sending msg total
  | .leave r => if r < 0 then .exited 1 none else Client.recvs (recvGuard bufferSize .empty)

def Client.step : Client → Result → Client
  | .sending msg total, .send r => Client.sends msg (sendAllTurn msg.length total r)
  | .receiving s, .recv r => Client.recvs (recvTurn bufferSize s r)
  | s, _ => s

/-- A message that does not fit into its buffer ends the client before it has a socket. -/
def Client.start (name : Bytes) (number : Int32) : Client :=
  match formatLines name number with
  | none => .exited 1 none
  | some msg => Client.sends msg (sendAllGuard msg.length 0)

end Exchange
