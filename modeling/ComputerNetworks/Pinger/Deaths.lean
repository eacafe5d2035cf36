import ComputerNetworks.Pinger.Server
import Mathlib.Tactic.Common

/-!
# Clients that are reported dead

A client is silent for as long as the server has not read from it. Its packets may have come.
-/

open Lib

namespace Pinger

variable (o : ServerOptions)

/-- A client that is reported dead has sent nothing that came to the socket in the last `N` seconds. -/
def NoFalseDeath (out : List ServerOutput) : Prop :=
  ∀ before behind key elapsed time, out = before ++ .died key elapsed time :: behind →
    ∀ came, .arrived key came ∈ before → came + o.heartbeatTimeoutSec * second < time

/-- Of a client that a check would report, no packet waits in the queue that came in the last `N`
seconds. -/
def Server.NoneWaits (s : Server) : Prop :=
  ∀ packet ∈ s.queue, ∀ ci, s.clients.find? packet.key = some ci → ci.Dies o s.now →
    packet.arrived + o.heartbeatTimeoutSec * second < s.now

/-! ## Packets that came -/

/-- Where the packets are that came. -/
structure Came (s : Server) (out : List ServerOutput) : Prop where
  arrived : ∀ packet ∈ s.queue, .arrived packet.key packet.arrived ∈ out
  le_now : ∀ key came, .arrived key came ∈ out → came ≤ s.now
  waits_or_seen : ∀ key came, .arrived key came ∈ out →
    (∃ packet ∈ s.queue, packet.key = key ∧ packet.arrived = came) ∨
      ∃ ci, s.clients.find? key = some ci ∧ came ≤ ci.lastSeen

theorem Came.init : Came .init [] where
  arrived := by simp [Server.init]
  le_now := by simp
  waits_or_seen := by simp

section Moves

variable {o} {s t : Server} {i : ServerInput} {new : List ServerOutput} (hmoves : Moves o s i t new)

include hmoves

theorem Moves.arrived_mem {key : Bytes} {came : Nat} (h : .arrived key came ∈ new) :
    came = s.now ∧ ∃ packet ∈ t.queue, packet.key = key ∧ packet.arrived = came := by
  cases hmoves with
  | quiet _ _ _ hout => exact absurd (hout _ h) id
  | @arrives key' datagram _ hqueue =>
    obtain ⟨rfl, rfl⟩ : key = key' ∧ came = s.now := by simpa using h
    exact ⟨rfl, _, hqueue ▸ List.mem_append_right _ List.mem_cons_self, rfl, rfl⟩
  | reads _ _ _ hechoes =>
    rcases List.mem_cons.mp h with h | h
    · cases h
    · exact absurd (hechoes _ h) id
  | checks => simp [mem_deaths_iff] at h

theorem Moves.queue_mem {packet : Packet} (h : packet ∈ t.queue) :
    packet ∈ s.queue ∨ .arrived packet.key packet.arrived ∈ new := by
  cases hmoves with
  | quiet _ hqueue => exact Or.inl (hqueue ▸ h)
  | arrives _ hqueue =>
    rw [hqueue] at h
    refine (List.mem_append.mp h).imp_right fun h => ?_
    rw [List.mem_singleton.mp h]
    exact List.mem_cons_self
  | reads _ hqueue => exact Or.inl (hqueue ▸ List.mem_cons_of_mem _ h)
  | checks _ _ _ _ hqueue => exact Or.inl (hqueue ▸ h)

theorem Moves.queue_or_seen {packet : Packet} (h : packet ∈ s.queue) :
    packet ∈ t.queue ∨ ∃ ci, t.clients.find? packet.key = some ci ∧ ci.lastSeen = s.now := by
  cases hmoves with
  | quiet _ hqueue => exact Or.inl (hqueue ▸ h)
  | arrives _ hqueue => exact Or.inl (hqueue ▸ List.mem_append_left _ h)
  | reads hclients hqueue =>
    rw [hqueue] at h
    rcases List.mem_cons.mp h with rfl | h
    · exact Or.inr ⟨⟨s.now, false⟩, by rw [hclients, SortedMap.find?_insert, if_pos rfl], rfl⟩
    · exact Or.inl h
  | checks _ _ _ _ hqueue => exact Or.inl (hqueue ▸ h)

theorem Moves.seen {key : Bytes} {ci : ClientInfo} (h : s.clients.find? key = some ci) :
    ∃ ci', t.clients.find? key = some ci' ∧ (ci'.lastSeen = ci.lastSeen ∨ ci'.lastSeen = s.now) := by
  cases hmoves with
  | quiet hclients => exact ⟨ci, hclients ▸ h, Or.inl rfl⟩
  | arrives hclients => exact ⟨ci, hclients ▸ h, Or.inl rfl⟩
  | @reads packet _ hclients =>
    rw [hclients, SortedMap.find?_insert]
    split
    · exact ⟨_, rfl, Or.inr rfl⟩
    · exact ⟨ci, h, Or.inl rfl⟩
  | checks _ _ _ hclients =>
    refine ⟨ci.check o s.now, ?_, Or.inl (ci.check_lastSeen o s.now)⟩
    rw [hclients, SortedMap.find?_mapValues, h]
    rfl

theorem Came.step {out : List ServerOutput} (h : Came s out) : Came t (out ++ new) where
  arrived packet hmem := by
    rcases hmoves.queue_mem hmem with hold | hnew
    · exact List.mem_append_left _ (h.arrived packet hold)
    · exact List.mem_append_right _ hnew
  le_now key came hmem := by
    rcases List.mem_append.mp hmem with hold | hnew
    · exact (h.le_now key came hold).trans hmoves.now_le
    · exact (hmoves.arrived_mem hnew).1.le.trans hmoves.now_le
  waits_or_seen key came hmem := by
    rcases List.mem_append.mp hmem with hold | hnew
    · have hle := h.le_now key came hold
      rcases h.waits_or_seen key came hold with ⟨packet, hpacket, rfl, rfl⟩ | ⟨ci, hfind, hseen⟩
      · refine (hmoves.queue_or_seen hpacket).imp (fun hqueue => ⟨packet, hqueue, rfl, rfl⟩) ?_
        exact fun ⟨ci, hfind, hnow⟩ => ⟨ci, hfind, hle.trans hnow.ge⟩
      · obtain ⟨ci', hfind', hlast⟩ := hmoves.seen hfind
        exact Or.inr ⟨ci', hfind',
          hlast.elim (fun hsame => hseen.trans hsame.ge) fun hnow => hle.trans hnow.ge⟩
    · exact Or.inl (hmoves.arrived_mem hnew).2

end Moves

theorem came_run {inputs front : List ServerInput} (hle : front <+: inputs) :
    Came ((server o).run .init front).1 ((server o).run .init front).2 :=
  (server o).run_induction Came.init (fun _ i _ h => h.step (step_moves o _ i)) front hle

/-! ## Reports -/

theorem died_split {s t : Server} {i : ServerInput} {new part rest : List ServerOutput} {key : Bytes}
    {elapsed time : Nat} (hmoves : Moves o s i t new)
    (h : new = part ++ .died key elapsed time :: rest) :
    i = .check ∧ s.phase = .checking ∧ time = s.now ∧ (∀ k came, .arrived k came ∉ part) ∧
      ∃ ci, s.clients.find? key = some ci ∧ ci.Dies o s.now := by
  have hmem : .died key elapsed time ∈ new := h ▸ List.mem_append_right _ List.mem_cons_self
  have hpart : ∀ x ∈ part, x ∈ new := fun x hx => h ▸ List.mem_append_left _ hx
  clear h
  cases hmoves with
  | quiet _ _ _ hout => exact absurd (hout _ hmem) id
  | arrives => simp at hmem
  | reads _ _ _ hechoes =>
    rcases List.mem_cons.mp hmem with hmem | hmem
    · cases hmem
    · exact absurd (hechoes _ hmem) id
  | checks hi hphase =>
    rcases List.mem_cons.mp hmem with hmem | hmem
    · cases hmem
    obtain ⟨k, ci, hfind, hdies, ⟨⟩⟩ := (mem_deaths_iff o).mp hmem
    refine ⟨hi, hphase, rfl, fun k came hk => ?_, ci, hfind, hdies⟩
    simpa [mem_deaths_iff] using hpart _ hk

theorem died_of_dies {s : Server} (hN : 0 < o.heartbeatTimeoutSec) (hphase : s.phase = .checking)
    {key : Bytes} {ci : ClientInfo} (hfind : s.clients.find? key = some ci) (hdies : ci.Dies o s.now) :
    .died key (ci.elapsed s.now) s.now ∈ (s.step o .check).2 := by
  rw [Server.step, if_pos hphase, Server.check, if_pos hN]
  exact List.mem_cons_of_mem _ ((mem_deaths_iff o).mpr ⟨key, ci, hfind, hdies, rfl⟩)

theorem ClientInfo.Dies.lt {ci : ClientInfo} {now : Nat} (h : ci.Dies o now) :
    ci.lastSeen + o.heartbeatTimeoutSec * second < now := by
  have helapsed := h.2
  unfold ClientInfo.elapsed at helapsed
  have hle := (Nat.le_div_iff_mul_le (by decide : 0 < second)).mp helapsed
  rw [Nat.succ_mul] at hle
  have hpos : 0 < second := by decide
  omega

/-- **Deaths.** In a run, no client is reported dead that sent a packet which came in the last `N`
seconds, exactly if at no check such a packet of a client that the check reports waits in the queue. -/
theorem no_false_death_iff (hN : 0 < o.heartbeatTimeoutSec) (inputs : List ServerInput) :
    NoFalseDeath o ((server o).run .init inputs).2 ↔
      ∀ front, front ++ [.check] <+: inputs → ((server o).run .init front).1.phase = .checking →
        ((server o).run .init front).1.NoneWaits o := by
  constructor
  · intro h front hle hphase packet hmem ci hfind hdies
    have hcame := came_run o ((List.prefix_append front [.check]).trans hle)
    obtain ⟨part, rest, hsplit⟩ := List.mem_iff_append.mp (died_of_dies o hN hphase hfind hdies)
    obtain ⟨behind, hout⟩ := (server o).run_split_iff.mpr ⟨front, .check, part, rest, hle, hsplit, rfl⟩
    exact h _ behind _ _ _ hout packet.arrived (List.mem_append_left _ (hcame.arrived packet hmem))
  · intro h before behind key elapsed time hout came hcame
    obtain ⟨front, i, part, rest, hle, hsplit, rfl⟩ := (server o).run_split_iff.mp ⟨behind, hout⟩
    obtain ⟨rfl, hphase, rfl, hpart, ci, hfind, hdies⟩ := died_split o (step_moves o _ i) hsplit
    have hold := (List.mem_append.mp hcame).resolve_right (hpart key came)
    rcases (came_run o ((List.prefix_append front _).trans hle)).waits_or_seen key came hold with
      ⟨packet, hmem, rfl, rfl⟩ | ⟨ci', hfind', hseen⟩
    · exact h front hle hphase packet hmem ci hfind hdies
    · obtain rfl := Option.some.inj (hfind.symm.trans hfind')
      exact (Nat.add_le_add_right hseen _).trans_lt (hdies.lt o)

/-- A client that is read from once, and then no more. -/
def silentClient : List ServerInput :=
  [.arrive [0x41] [], .recv true, .check, .pass (4 * second), .timeout, .check]

theorem silent_client :
    .died [0x41] 4 (4 * second) ∈ ((server ⟨0, 3⟩).run .init silentClient).2 ∧
      NoFalseDeath ⟨0, 3⟩ ((server ⟨0, 3⟩).run .init silentClient).2 := by
  -- At both checks the queue is empty.
  have hempty : ∀ n < 6, ((server ⟨0, 3⟩).run .init (silentClient.take n)).1.phase = .checking →
      ((server ⟨0, 3⟩).run .init (silentClient.take n)).1.queue = [] := by
    decide +kernel
  refine ⟨by decide +kernel, (no_false_death_iff ⟨0, 3⟩ (by decide) silentClient).mpr ?_⟩
  intro front hle hphase packet hmem
  have hfront := List.prefix_iff_eq_take.mp ((List.prefix_append front [.check]).trans hle)
  have hlength : front.length < 6 := by
    have hlong := hle.length_le
    rw [List.length_append] at hlong
    exact hlong
  rw [hfront] at hphase hmem
  rw [hempty front.length hlength hphase] at hmem
  cases hmem

/-- The second packet comes while the server delays its echo of the first, which takes longer than the
client may be silent. -/
theorem packet_waits : ¬ ∀ (o : ServerOptions) (inputs : List ServerInput), 0 < o.heartbeatTimeoutSec →
    NoFalseDeath o ((server o).run .init inputs).2 := by
  intro h
  have hdead := h ⟨5000, 3⟩
    [.arrive [0x41] [], .recv false, .pass (4 * second), .arrive [0x41] [], .pass second, .wake, .check]
    (by decide)
    [.arrived [0x41] 0, .read [0x41] 0, .arrived [0x41] (4 * second), .echoed [0x41] [],
      .checked (5 * second)] [] [0x41] 5 (5 * second) (by decide) (4 * second) (by decide)
  exact absurd hdead (by decide)

end Pinger
