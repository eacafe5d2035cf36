import ComputerNetworks.Pinger.Server
import Mathlib.Tactic.Common

/-!
# The bookkeeping of heartbeats

What the server knows of a client is what has come out since a packet of it was last read.
-/

open Lib

namespace Pinger

variable (o : ServerOptions)

/-! ## Since the last packet -/

def ServerOutput.isDeath (key : Bytes) : ServerOutput → Bool
  | .died k .. => decide (k = key)
  | _ => false

/-- How often the death of a client was printed. -/
def deathsOf (key : Bytes) (out : List ServerOutput) : Nat := out.countP (·.isDeath key)

/-- When the packet was read, if it is one of the client that is. -/
def ServerOutput.readOf (key : Bytes) : ServerOutput → Option Nat
  | .read k time => if k = key then some time else none
  | _ => none

/-- When a packet of the client was last read, and what has come out since. -/
def lastRead (key : Bytes) : List ServerOutput → Option (Nat × List ServerOutput)
  | [] => none
  | x :: rest => (lastRead key rest).or ((x.readOf key).map fun time => (time, rest))

/-- Some check found that nothing had been read since `time` for more than `N` whole seconds. -/
def FoundSilent (time : Nat) (out : List ServerOutput) : Prop :=
  ∃ c, .checked c ∈ out ∧ o.heartbeatTimeoutSec < (c - time) / second

variable {key : Bytes}

theorem deathsOf_append (front back : List ServerOutput) :
    deathsOf key (front ++ back) = deathsOf key front + deathsOf key back := List.countP_append

theorem lastRead_eq_none {out : List ServerOutput} (h : ∀ x ∈ out, x.readOf key = none) :
    lastRead key out = none := by
  induction out with
  | nil => rfl
  | cons x rest ih =>
    obtain ⟨hx, hrest⟩ := List.forall_mem_cons.mp h
    rw [lastRead, ih hrest, hx]
    rfl

theorem lastRead_append (out new : List ServerOutput) :
    lastRead key (out ++ new) =
      (lastRead key new).or ((lastRead key out).map fun found => (found.1, found.2 ++ new)) := by
  induction out with
  | nil => simp [lastRead]
  | cons x rest ih =>
    rw [List.cons_append, lastRead, lastRead, ih, Option.or_assoc]
    congr 1
    cases lastRead key rest with
    | some found => rfl
    | none => simp [Function.comp_def]

theorem lastRead_suffix {out between : List ServerOutput} {time : Nat}
    (h : lastRead key out = some (time, between)) : between <:+ out := by
  induction out with
  | nil => cases h
  | cons x rest ih =>
    rw [lastRead, Option.or_eq_some_iff] at h
    rcases h with h | ⟨-, h⟩
    · exact (ih h).trans (List.suffix_cons x rest)
    · obtain ⟨_, -, ⟨⟩⟩ := Option.map_eq_some_iff.mp h
      exact List.suffix_cons x _

theorem readOf_read (time : Nat) : (ServerOutput.read key time).readOf key = some time := if_pos rfl

theorem readOf_echo {x : ServerOutput} (h : x.IsEcho) : x.readOf key = none := by
  cases x with
  | echoed => rfl
  | _ => exact absurd h id

theorem lastRead_echoes {out : List ServerOutput} (h : ∀ x ∈ out, x.IsEcho) :
    lastRead key out = none :=
  lastRead_eq_none fun x hx => readOf_echo (h x hx)

/-! ## What a check prints -/

theorem deathsOf_echoes {out : List ServerOutput} (h : ∀ x ∈ out, x.IsEcho) : deathsOf key out = 0 := by
  rw [deathsOf, List.countP_eq_zero]
  intro x hx
  have hecho := h x hx
  cases x with
  | echoed => simp [ServerOutput.isDeath]
  | _ => exact absurd hecho id

theorem lastRead_check (now : Nat) (clients : SortedMap Bytes ClientInfo) :
    lastRead key (.checked now :: deaths o now clients) = none := by
  apply lastRead_eq_none
  intro x hx
  rcases List.mem_cons.mp hx with rfl | hx
  · rfl
  · obtain ⟨k, ci, -, -, rfl⟩ := (mem_deaths_iff o).mp hx
    rfl

theorem deathsOf_filterMap_death (now : Nat) {entries : List (Bytes × ClientInfo)}
    (h : ∀ e ∈ entries, e.1 ≠ key) :
    deathsOf key (entries.filterMap fun e => death o now e.1 e.2) = 0 := by
  rw [deathsOf, List.countP_eq_zero]
  intro x hx
  obtain ⟨e, he, hdeath⟩ := List.mem_filterMap.mp hx
  obtain ⟨-, rfl⟩ := (death_eq_some_iff o).mp hdeath
  simpa [ServerOutput.isDeath] using h e he

theorem deathsOf_deaths (now : Nat) {clients : SortedMap Bytes ClientInfo} {ci : ClientInfo}
    (h : clients.find? key = some ci) :
    deathsOf key (deaths o now clients) = if ci.Dies o now then 1 else 0 := by
  obtain ⟨front, back, hentries, hfront, hback⟩ := SortedMap.exists_entries_eq h
  have hone : deathsOf key ([(key, ci)].filterMap fun e => death o now e.1 e.2) =
      if ci.Dies o now then 1 else 0 := by
    by_cases hdies : ci.Dies o now
    · simp [death, hdies, deathsOf, ServerOutput.isDeath]
    · simp [death, hdies, deathsOf]
  rw [deaths, hentries, ← List.singleton_append, List.filterMap_append, List.filterMap_append,
    deathsOf_append, deathsOf_append, deathsOf_filterMap_death o now hfront,
    deathsOf_filterMap_death o now hback, hone, Nat.zero_add, Nat.add_zero]

/-! ## The invariant -/

/-- What the server keeps of a client, if it has read from it. -/
def Kept (clients : SortedMap Bytes ClientInfo) (out : List ServerOutput) (key : Bytes) : Prop :=
  ∀ time between, lastRead key out = some (time, between) →
    ∃ ci, clients.find? key = some ci ∧ ci.lastSeen = time ∧
      (ci.deadReported = true ↔ FoundSilent o time between) ∧
      deathsOf key between = ci.deadReported.toNat

variable {o} {clients clients' : SortedMap Bytes ClientInfo} {out new : List ServerOutput}

theorem Kept.of_quiet (h : Kept o clients out key) (hfind : clients'.find? key = clients.find? key)
    (hread : lastRead key new = none) (hchecked : ∀ c, .checked c ∉ new) (hdeaths : deathsOf key new = 0) :
    Kept o clients' (out ++ new) key := by
  intro time between hlast
  rw [lastRead_append, hread, Option.none_or] at hlast
  obtain ⟨⟨time, between⟩, hold, ⟨⟩⟩ := Option.map_eq_some_iff.mp hlast
  obtain ⟨ci, hci, hseen, hsilent, hcount⟩ := h time between hold
  refine ⟨ci, hfind.trans hci, hseen, hsilent.trans ?_, ?_⟩
  · simp only [FoundSilent, List.mem_append, hchecked, or_false]
  · rw [deathsOf_append, hdeaths, hcount, Nat.add_zero]

theorem Kept.of_read (time : Nat) (hfind : clients.find? key = some ⟨time, false⟩)
    (hechoes : ∀ x ∈ new, x.IsEcho) : Kept o clients (out ++ .read key time :: new) key := by
  intro time' between hlast
  rw [lastRead_append, lastRead, lastRead_echoes hechoes, readOf_read] at hlast
  obtain ⟨rfl, rfl⟩ : time = time' ∧ new = between := by simpa using hlast
  refine ⟨⟨time, false⟩, hfind, rfl, iff_of_false Bool.false_ne_true ?_, deathsOf_echoes hechoes⟩
  rintro ⟨c, hc, -⟩
  exact hechoes _ hc

theorem foundSilent_check {time now : Nat} {between : List ServerOutput} :
    FoundSilent o time (between ++ .checked now :: deaths o now clients) ↔
      FoundSilent o time between ∨ o.heartbeatTimeoutSec < (now - time) / second := by
  simp [FoundSilent, mem_deaths_iff, or_and_right, exists_or]

theorem deadReported_check (now : Nat) (ci : ClientInfo) :
    (ci.check o now).deadReported = true ↔
      ci.deadReported = true ∨ o.heartbeatTimeoutSec < ci.elapsed now := by
  unfold ClientInfo.check
  split
  · rename_i hdies
    exact iff_of_true rfl (Or.inr hdies.2)
  · rename_i hdies
    refine (or_iff_left_of_imp fun hsilent => ?_).symm
    exact (Bool.not_eq_false _).mp fun halive => hdies ⟨halive, hsilent⟩

theorem Kept.of_check (h : Kept o clients out key) (now : Nat) :
    Kept o (clients.mapValues (·.check o now)) (out ++ .checked now :: deaths o now clients) key := by
  intro time between hlast
  rw [lastRead_append, lastRead_check, Option.none_or] at hlast
  obtain ⟨⟨time, between⟩, hold, ⟨⟩⟩ := Option.map_eq_some_iff.mp hlast
  obtain ⟨ci, hci, rfl, hsilent, hcount⟩ := h time between hold
  refine ⟨ci.check o now, ?_, ci.check_lastSeen o now, ?_, ?_⟩
  · rw [SortedMap.find?_mapValues, hci]
    rfl
  · rw [foundSilent_check, deadReported_check, hsilent]
    rfl
  · have hcheck : deathsOf key (.checked now :: deaths o now clients) = if ci.Dies o now then 1 else 0 :=
      deathsOf_deaths o now hci
    rw [deathsOf_append, hcount, hcheck, ClientInfo.check]
    split
    · rename_i hdies
      rw [hdies.1]
      rfl
    · rfl

theorem Kept.step {s t : Server} {i : ServerInput} (h : ∀ key, Kept o s.clients out key)
    (hmoves : Moves o s i t new) (key : Bytes) : Kept o t.clients (out ++ new) key := by
  cases hmoves with
  | quiet hclients _ _ hout =>
    exact (h key).of_quiet (hclients ▸ rfl) (lastRead_echoes hout) (fun c hc => hout _ hc)
      (deathsOf_echoes hout)
  | arrives hclients => exact (h key).of_quiet (hclients ▸ rfl) rfl (by simp) rfl
  | @reads packet echoes hclients _ _ hechoes =>
    rw [hclients]
    by_cases hkey : packet.key = key
    · rw [hkey]
      exact .of_read s.now (by rw [SortedMap.find?_insert, if_pos rfl]) hechoes
    · refine (h key).of_quiet (by rw [SortedMap.find?_insert, if_neg hkey]) ?_ ?_ ?_
      · rw [lastRead, lastRead_echoes hechoes, ServerOutput.readOf, if_neg hkey]
        rfl
      · rintro c (_ | ⟨_, hc⟩)
        exact hechoes _ hc
      · exact (List.countP_cons_of_neg Bool.false_ne_true).trans (deathsOf_echoes hechoes)
  | checks _ _ _ hclients =>
    rw [hclients]
    exact (h key).of_check s.now

theorem kept_run (inputs : List ServerInput) (key : Bytes) :
    Kept o ((server o).run .init inputs).1.clients ((server o).run .init inputs).2 key := by
  refine (server o).run_induction (P := fun s out => ∀ key, Kept o s.clients out key) ?_ ?_ inputs
    (List.prefix_refl _) key
  · intro key time between h
    cases h
  · exact fun _ i _ h => Kept.step h (step_moves o _ i)

/-! ## Steps -/

theorem Moves.checked_eq {s t : Server} {i : ServerInput} (hmoves : Moves o s i t new) {c : Nat}
    (hc : .checked c ∈ new) : c = s.now := by
  cases hmoves with
  | quiet _ _ _ hout => exact absurd (hout _ hc) id
  | arrives => simp at hc
  | reads _ _ _ hechoes =>
    rcases List.mem_cons.mp hc with hc | hc
    · cases hc
    · exact absurd (hechoes _ hc) id
  | checks =>
    rcases List.mem_cons.mp hc with hc | hc
    · exact ServerOutput.checked.inj hc
    · simp [mem_deaths_iff] at hc

theorem checked_le_now (inputs : List ServerInput) : ∀ c,
    .checked c ∈ ((server o).run .init inputs).2 → c ≤ ((server o).run .init inputs).1.now := by
  refine (server o).run_induction (P := fun s out => ∀ c, .checked c ∈ out → c ≤ s.now) ?_ ?_ inputs
    (List.prefix_refl _)
  · intro c hc
    cases hc
  · intro front i _ h c hc
    have hmoves := step_moves o ((server o).run .init front).1 i
    rcases List.mem_append.mp hc with hc | hc
    · exact (h c hc).trans hmoves.now_le
    · exact (hmoves.checked_eq hc).le.trans hmoves.now_le

theorem step_check {s : Server} (hN : 0 < o.heartbeatTimeoutSec) (hphase : s.phase = .checking) :
    (s.step o .check).1.now = s.now ∧
      (s.step o .check).2 = .checked s.now :: deaths o s.now s.clients := by
  rw [Server.step, if_pos hphase, Server.check, if_pos hN]
  exact ⟨rfl, rfl⟩

theorem Moves.read_first {s t : Server} {i : ServerInput} {part rest : List ServerOutput} {time : Nat}
    (hmoves : Moves o s i t new) (hnew : new = part ++ .read key time :: rest) : part = [] := by
  have hmem : .read key time ∈ new := hnew ▸ List.mem_append_right _ List.mem_cons_self
  cases hmoves with
  | quiet _ _ _ hout => exact absurd (hout _ hmem) id
  | arrives => simp at hmem
  | reads _ _ _ hechoes =>
    cases part with
    | nil => rfl
    | cons x part =>
      obtain ⟨-, rfl⟩ := List.cons.inj hnew
      exact absurd (hechoes (.read key time) (List.mem_append_right _ List.mem_cons_self)) id
  | checks => simp [mem_deaths_iff] at hmem

/-! ## The theorem -/

/-- Behind a check, a client counts as dead exactly if it was last read from more than `N` whole seconds
ago. -/
theorem dead_iff (hN : 0 < o.heartbeatTimeoutSec) {front : List ServerInput}
    (hphase : ((server o).run .init front).1.phase = .checking) {time : Nat}
    {between : List ServerOutput}
    (hlast : lastRead key ((server o).run .init (front ++ [.check])).2 = some (time, between)) :
    FoundSilent o time between ↔ o.heartbeatTimeoutSec <
      (((server o).run .init (front ++ [.check])).1.now - time) / second := by
  constructor
  · rintro ⟨c, hc, hsilent⟩
    have hle := checked_le_now _ c ((lastRead_suffix hlast).subset hc)
    exact hsilent.trans_le (Nat.div_le_div_right (Nat.sub_le_sub_right hle time))
  · intro hsilent
    refine ⟨_, ?_, hsilent⟩
    -- What the check puts out comes behind the packet.
    obtain ⟨hnow, hout⟩ := step_check hN hphase
    rw [(server o).run_snoc] at hlast ⊢
    change lastRead key (_ ++ (Server.step o _ .check).2) = _ at hlast
    rw [hout, lastRead_append, lastRead_check, Option.none_or] at hlast
    obtain ⟨found, -, ⟨⟩⟩ := Option.map_eq_some_iff.mp hlast
    exact List.mem_append_right _ (hnow ▸ List.mem_cons_self)

/-- **Bookkeeping.** Behind every check, a client counts as dead exactly if it was last read from more
than `N` whole seconds ago. From one of its packets to the next its death is printed at most once, and
once exactly if some check finds it silent. -/
theorem bookkeeping (hN : 0 < o.heartbeatTimeoutSec) (inputs : List ServerInput) :
    (∀ front, front ++ [.check] <+: inputs → ((server o).run .init front).1.phase = .checking →
      ∀ key time between,
        lastRead key ((server o).run .init (front ++ [.check])).2 = some (time, between) →
        ∃ ci, ((server o).run .init (front ++ [.check])).1.clients.find? key = some ci ∧
          (ci.deadReported = true ↔ o.heartbeatTimeoutSec <
            (((server o).run .init (front ++ [.check])).1.now - time) / second)) ∧
      ∀ before key time between behind,
        ((server o).run .init inputs).2 = before ++ .read key time :: (between ++ behind) →
        lastRead key between = none →
        (behind = [] ∨ ∃ next rest, behind = .read key next :: rest) →
        deathsOf key between ≤ 1 ∧ (deathsOf key between = 1 ↔ FoundSilent o time between) := by
  constructor
  · intro front _ hphase key time between hlast
    obtain ⟨ci, hfind, -, hsilent, -⟩ := kept_run _ key time between hlast
    exact ⟨ci, hfind, hsilent.trans (dead_iff hN hphase hlast)⟩
  · intro before key time between behind hout hbetween hend
    have hlast : lastRead key (before ++ .read key time :: between) = some (time, between) := by
      rw [lastRead_append, lastRead, hbetween, readOf_read]
      rfl
    -- The period ends with a step of the server.
    obtain ⟨front, hfront⟩ : ∃ front, ((server o).run .init front).2 =
        before ++ .read key time :: between := by
      rcases hend with rfl | ⟨next, rest, rfl⟩
      · exact ⟨inputs, by rw [hout, List.append_nil]⟩
      · rw [← List.cons_append, ← List.append_assoc] at hout
        obtain ⟨front, i, part, rest, -, hnew, heq⟩ := (server o).run_split_iff.mp ⟨rest, hout⟩
        have hpart := (step_moves o ((server o).run .init front).1 i).read_first hnew
        exact ⟨front, by rw [heq, hpart, List.append_nil]⟩
    obtain ⟨ci, -, -, hsilent, hcount⟩ := kept_run front key time between (hfront ▸ hlast)
    rw [hcount, ← hsilent]
    exact ⟨Bool.toNat_le _, Bool.toNat_eq_one⟩

/-- The server reads from a client, finds it silent four seconds later, and reads from it again. -/
def lateClient : List ServerInput :=
  [.arrive [0x41] [], .recv true, .check, .pass (4 * second), .timeout, .check,
    .arrive [0x41] [], .recv true, .check]

theorem late_client : ∃ before between,
    ((server ⟨0, 3⟩).run .init lateClient).2 =
      before ++ .read [0x41] 0 :: (between ++ [.read [0x41] (4 * second), .checked (4 * second)]) ∧
    .checked (4 * second) ∈ between ∧ .died [0x41] 4 (4 * second) ∈ between ∧
    deathsOf [0x41] between = 1 ∧
    ∃ ci, ((server ⟨0, 3⟩).run .init lateClient).1.clients.find? [0x41] = some ci ∧
      ci.deadReported = false := by
  let between : List ServerOutput :=
    [.checked 0, .checked (4 * second), .died [0x41] 4 (4 * second), .arrived [0x41] (4 * second)]
  obtain ⟨hchecks, hperiods⟩ := bookkeeping (o := ⟨0, 3⟩) (by decide) lateClient
  have hout : ((server ⟨0, 3⟩).run .init lateClient).2 = [.arrived [0x41] 0] ++ .read [0x41] 0 ::
      (between ++ [.read [0x41] (4 * second), .checked (4 * second)]) := by
    decide +kernel
  obtain ⟨-, hdeath⟩ := hperiods _ _ _ _ _ hout (by decide +kernel) (.inr ⟨_, _, rfl⟩)
  have hlast : lastRead [0x41] ((server ⟨0, 3⟩).run .init (lateClient.take 8 ++ [.check])).2 =
      some (4 * second, [.checked (4 * second)]) := by
    decide +kernel
  obtain ⟨ci, hfind, hdead⟩ := hchecks (lateClient.take 8) (List.prefix_refl _) (by decide +kernel) _ _ _ hlast
  refine ⟨_, between, hout, by decide +kernel, by decide +kernel, hdeath.mpr ?_, ci, hfind, ?_⟩
  · exact ⟨4 * second, by decide +kernel, by decide +kernel⟩
  · exact Bool.eq_false_iff.mpr fun htrue => absurd (hdead.mp htrue) (by decide +kernel)

end Pinger
