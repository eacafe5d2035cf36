import ComputerNetworks.Lib.Bytes
import ComputerNetworks.Lib.Machine
import ComputerNetworks.Lib.SortedMap
import Mathlib.Tactic.Common

/-!
# The server of the UDP pinger

The loop of `udp_pinger_server.cpp` with the receive queue of its socket. Each of its steps may take
any time. The random generator decides by an input whether a packet is dropped.
-/

open Lib

namespace Pinger

/-- The ticks of a clock are nanoseconds. -/
def second : Nat := 10 ^ 9

def millisecond : Nat := 10 ^ 6

/-- The string that is made of a datagram which `recvfrom` puts in `buf`. -/
def payload (datagram : Bytes) : Bytes := (datagram.take 1023).takeWhile (· ≠ 0)

/-! ## Options -/

structure ServerOptions where
  delayMs : Nat
  heartbeatTimeoutSec : Nat

/-! ## State -/

structure ClientInfo where
  lastSeen : Nat
  deadReported : Bool
  deriving DecidableEq

/-- A datagram in the queue. Its key is the text of its source address. -/
structure Packet where
  key : Bytes
  datagram : Bytes
  arrived : Nat
  deriving DecidableEq

/-- Where in the loop the server is: in `recvfrom`, in the artificial delay, or before the heartbeat
checks. -/
inductive ServerPhase where
  | receiving
  | delaying (wake : Nat) (packet : Packet)
  | checking
  deriving DecidableEq

structure Server where
  now : Nat
  phase : ServerPhase
  clients : SortedMap Bytes ClientInfo
  queue : List Packet

def Server.init : Server := { now := 0, phase := .receiving, clients := .empty, queue := [] }

inductive ServerInput where
  | pass (time : Nat)
  | arrive (key datagram : Bytes)
  /-- `recvfrom` times out, or is interrupted. -/
  | timeout
  | recv (drop : Bool)
  | wake
  | check

inductive ServerOutput where
  | arrived (key : Bytes) (time : Nat)
  | read (key : Bytes) (time : Nat)
  | echoed (key payload : Bytes)
  | checked (time : Nat)
  | died (key : Bytes) (elapsed time : Nat)
  deriving DecidableEq

/-! ## Heartbeats -/

variable (o : ServerOptions)

/-- `duration_cast<seconds>(now - ci.last_seen)` -/
def ClientInfo.elapsed (ci : ClientInfo) (now : Nat) : Nat := (now - ci.lastSeen) / second

def ClientInfo.Dies (ci : ClientInfo) (now : Nat) : Prop :=
  ci.deadReported = false ∧ o.heartbeatTimeoutSec < ci.elapsed now

instance (ci : ClientInfo) (now : Nat) : Decidable (ci.Dies o now) := inferInstanceAs (Decidable (_ ∧ _))

def ClientInfo.check (now : Nat) (ci : ClientInfo) : ClientInfo :=
  if ci.Dies o now then { ci with deadReported := true } else ci

def death (now : Nat) (key : Bytes) (ci : ClientInfo) : Option ServerOutput :=
  if ci.Dies o now then some (.died key (ci.elapsed now) now) else none

def deaths (now : Nat) (clients : SortedMap Bytes ClientInfo) : List ServerOutput :=
  clients.entries.filterMap fun e => death o now e.1 e.2

/-! ## Steps -/

def Server.recv (s : Server) (packet : Packet) (queue : List Packet) (drop : Bool) :
    Server × List ServerOutput :=
  let s := { s with
    queue := queue
    clients := s.clients.insert packet.key { lastSeen := s.now, deadReported := false } }
  let read := ServerOutput.read packet.key s.now
  if drop then ({ s with phase := .checking }, [read])
  else if 0 < o.delayMs then
    ({ s with phase := .delaying (s.now + o.delayMs * millisecond) packet }, [read])
  else ({ s with phase := .checking }, [read, .echoed packet.key (payload packet.datagram)])

def Server.check (s : Server) : Server × List ServerOutput :=
  if 0 < o.heartbeatTimeoutSec then
    ({ s with phase := .receiving, clients := s.clients.mapValues (·.check o s.now) },
      .checked s.now :: deaths o s.now s.clients)
  else ({ s with phase := .receiving }, [])

def Server.step (s : Server) : ServerInput → Server × List ServerOutput
  | .pass time => ({ s with now := s.now + time }, [])
  | .arrive key datagram =>
    ({ s with queue := s.queue ++ [⟨key, datagram, s.now⟩] }, [.arrived key s.now])
  | .timeout =>
    if s.phase = .receiving ∧ s.queue = [] then ({ s with phase := .checking }, []) else (s, [])
  | .recv drop =>
    match s.phase, s.queue with
    | .receiving, packet :: queue => s.recv o packet queue drop
    | _, _ => (s, [])
  | .wake =>
    match s.phase with
    | .delaying wake packet =>
      if wake ≤ s.now then
        ({ s with phase := .checking }, [.echoed packet.key (payload packet.datagram)])
      else (s, [])
    | _ => (s, [])
  | .check => if s.phase = .checking then s.check o else (s, [])

/-- The server in its surroundings. An input for which it is not ready changes nothing. -/
def server : Machine Server ServerInput ServerOutput := ⟨Server.step o⟩

/-! ## What a check prints -/

theorem ClientInfo.check_lastSeen (now : Nat) (ci : ClientInfo) :
    (ci.check o now).lastSeen = ci.lastSeen := by
  unfold ClientInfo.check
  split <;> rfl

theorem death_eq_some_iff {now : Nat} {key : Bytes} {ci : ClientInfo} {x : ServerOutput} :
    death o now key ci = some x ↔ ci.Dies o now ∧ .died key (ci.elapsed now) now = x := by
  unfold death
  split
  · rename_i hdies
    simp [hdies]
  · rename_i hdies
    simp [hdies]

theorem mem_deaths_iff {now : Nat} {clients : SortedMap Bytes ClientInfo} {x : ServerOutput} :
    x ∈ deaths o now clients ↔ ∃ key ci, clients.find? key = some ci ∧ ci.Dies o now ∧
      .died key (ci.elapsed now) now = x := by
  simp only [deaths, List.mem_filterMap, death_eq_some_iff, SortedMap.find?_eq_some_iff, Prod.exists]

/-! ## What a step does -/

def ServerOutput.IsEcho : ServerOutput → Prop
  | .echoed .. => True
  | _ => False

/-- What a step does to the clients and to the queue, and what comes out. -/
inductive Moves (s : Server) (i : ServerInput) (t : Server) : List ServerOutput → Prop where
  | quiet {out : List ServerOutput} (hclients : t.clients = s.clients) (hqueue : t.queue = s.queue)
      (hnow : s.now ≤ t.now) (hout : ∀ x ∈ out, x.IsEcho) : Moves s i t out
  | arrives {key datagram : Bytes} (hclients : t.clients = s.clients)
      (hqueue : t.queue = s.queue ++ [⟨key, datagram, s.now⟩]) (hnow : t.now = s.now) :
      Moves s i t [.arrived key s.now]
  | reads {packet : Packet} {echoes : List ServerOutput}
      (hclients : t.clients = s.clients.insert packet.key ⟨s.now, false⟩)
      (hqueue : s.queue = packet :: t.queue) (hnow : t.now = s.now) (hechoes : ∀ x ∈ echoes, x.IsEcho) :
      Moves s i t (.read packet.key s.now :: echoes)
  | checks (hi : i = .check) (hphase : s.phase = .checking) (hheartbeat : 0 < o.heartbeatTimeoutSec)
      (hclients : t.clients = s.clients.mapValues (·.check o s.now)) (hqueue : t.queue = s.queue)
      (hnow : t.now = s.now) : Moves s i t (.checked s.now :: deaths o s.now s.clients)

theorem Moves.still {s : Server} {i : ServerInput} : Moves o s i s [] :=
  .quiet rfl rfl (Nat.le_refl _) fun _ h => absurd h List.not_mem_nil

theorem Moves.now_le {o : ServerOptions} {s t : Server} {i : ServerInput} {new : List ServerOutput}
    (hmoves : Moves o s i t new) : s.now ≤ t.now := by
  cases hmoves with
  | quiet _ _ hnow => exact hnow
  | arrives _ _ hnow => exact hnow.ge
  | reads _ _ hnow => exact hnow.ge
  | checks _ _ _ _ _ hnow => exact hnow.ge

theorem recv_moves (s : Server) {packet : Packet} {queue : List Packet}
    (hqueue : s.queue = packet :: queue) (drop : Bool) :
    Moves o s (.recv drop) (s.recv o packet queue drop).1 (s.recv o packet queue drop).2 := by
  unfold Server.recv
  dsimp only
  split
  · exact .reads rfl hqueue rfl (by simp)
  · split
    · exact .reads rfl hqueue rfl (by simp)
    · exact .reads rfl hqueue rfl (by simp [ServerOutput.IsEcho])

theorem check_moves (s : Server) (hphase : s.phase = .checking) :
    Moves o s .check (s.check o).1 (s.check o).2 := by
  unfold Server.check
  split
  · rename_i hheartbeat
    exact .checks rfl hphase hheartbeat rfl rfl rfl
  · exact .quiet rfl rfl (Nat.le_refl _) (by simp)

theorem step_moves (s : Server) (i : ServerInput) : Moves o s i (s.step o i).1 (s.step o i).2 := by
  cases i with
  | pass time => exact .quiet rfl rfl (Nat.le_add_right _ _) (by simp [Server.step])
  | arrive key datagram => exact .arrives rfl rfl rfl
  | timeout =>
    rw [Server.step]
    split
    · exact .quiet rfl rfl (Nat.le_refl _) (by simp)
    · exact .still o
  | recv drop =>
    rw [Server.step]
    split
    · rename_i hqueue
      exact recv_moves o s hqueue drop
    · exact .still o
  | wake =>
    rw [Server.step]
    split
    · split
      · exact .quiet rfl rfl (Nat.le_refl _) (by simp [ServerOutput.IsEcho])
      · exact .still o
    · exact .still o
  | check =>
    rw [Server.step]
    split
    · rename_i hphase
      exact check_moves o s hphase
    · exact .still o

end Pinger
