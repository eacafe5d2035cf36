import ComputerNetworks.Lib.System
import ComputerNetworks.Pinger.Matching

/-!
# The server and its clients

One server, a client at each of some addresses, and others who send what they like. The network loses,
repeats and reorders, but it tells nobody's datagrams from another address than their own.
-/

open Lib Lib.Bytes Lib.Number

namespace Pinger

/-- The server and the client at each address, with what they have put out, and what others than the server
have sent to each client. -/
structure World where
  serving : Server × List ServerOutput
  clients : Bytes → Client × List ClientOutput
  strays : Bytes → List Bytes

/-- What the server says to an address. -/
def echoesTo (key : Bytes) (out : List ServerOutput) : List Bytes :=
  out.filterMap fun x => match x with
    | .echoed address payload => if address = key then some payload else none
    | _ => none

/-- An echo is on its way to the client. It is one of the first ping that says the same. -/
def Client.hear (c : Client) (bytes : Bytes) : Client :=
  { c with echoes := c.echoes ++ [⟨c.pings.findIdx (fun ping => payload ping = bytes) + 1, bytes⟩] }

def Client.hearAll (c : Client) (echoes : List Bytes) : Client := echoes.foldl Client.hear c

/-- A datagram of somebody else comes to the socket. It is the echo of no ping. -/
def Client.intrude (c : Client) (datagram : Bytes) : Client :=
  { c with buffer := c.buffer ++ [⟨0, datagram⟩] }

/-- What a client does, and what is done to it, but for the clock and the echoes of the server. -/
def ClientInput.Own : ClientInput → Prop
  | .pass _ | .reach _ => False
  | _ => True

def ServerInput.Own : ServerInput → Prop
  | .pass _ | .arrive _ _ => False
  | _ => True

section Together

variable (so : ServerOptions) (co : Bytes → Options) (At : Bytes → Prop)

inductive World.Step (w : World) : World → Prop where
  | pass (time : Nat) :
    Step w { w with
      serving := (server so).after w.serving (.pass time)
      clients := fun key => (client (co key)).after (w.clients key) (.pass time) }
  | client {key : Bytes} (hkey : At key) {i : ClientInput} (hi : i.Own) :
    Step w { w with
      clients := Function.update w.clients key ((client (co key)).after (w.clients key) i) }
  /-- A ping of a client arrives at the server. -/
  | arrives {key : Bytes} (hkey : At key) {ping : Bytes} (hping : ping ∈ (w.clients key).1.pings) :
    Step w { w with serving := (server so).after w.serving (.arrive key ping) }
  /-- A datagram of somebody else arrives there. -/
  | strange {key : Bytes} (hkey : ¬ At key) (datagram : Bytes) :
    Step w { w with serving := (server so).after w.serving (.arrive key datagram) }
  /-- And one at a client, whose `recvfrom` takes any source. -/
  | intrudes {key : Bytes} (hkey : At key) (datagram : Bytes) :
    Step w { w with
      clients := Function.update w.clients key
        ((w.clients key).1.intrude datagram, (w.clients key).2)
      strays := Function.update w.strays key (w.strays key ++ [datagram]) }
  | serves {i : ServerInput} (hi : i.Own) :
    Step w { w with
      serving := (server so).after w.serving i
      clients := fun key => ((w.clients key).1.hearAll
        (echoesTo key ((server so).step w.serving.1 i).2), (w.clients key).2) }

def together : System World where
  init w := w = ⟨(.init, []), fun _ => (.init, []), fun _ => []⟩
  step w w' := w.Step so co At w'

variable {so : ServerOptions} {co : Bytes → Options} {At : Bytes → Prop} {w w' : World}

/-! ## The server -/

/-- The packets that the server holds. -/
def Server.held (s : Server) : List Packet :=
  match s.phase with
  | .delaying _ packet => packet :: s.queue
  | _ => s.queue

/-- A step brings no packet in but by arrival, and echoes what is held. -/
structure Server.Holds (s : Server) (i : ServerInput) (t : Server) (new : List ServerOutput) : Prop where
  held : ∀ packet ∈ t.held, packet ∈ s.held ∨
    ∃ key datagram, i = .arrive key datagram ∧ packet = ⟨key, datagram, s.now⟩
  echoed : ∀ key bytes, .echoed key bytes ∈ new →
    ∃ packet ∈ s.held, packet.key = key ∧ payload packet.datagram = bytes

variable {s : Server} {i : ServerInput}

theorem Server.Holds.quiet {t : Server} {new : List ServerOutput} (hheld : t.held ⊆ s.held)
    (hnew : ∀ key bytes, .echoed key bytes ∉ new) : s.Holds i t new where
  held _ hmem := .inl (hheld hmem)
  echoed key bytes h := absurd h (hnew key bytes)

theorem holds_recv {packet : Packet} {queue : List Packet} (hphase : s.phase = .receiving)
    (hqueue : s.queue = packet :: queue) (drop : Bool) :
    s.Holds i (s.recv so packet queue drop).1 (s.recv so packet queue drop).2 := by
  have hheld : s.held = packet :: queue := by rw [Server.held, hphase, hqueue]
  unfold Server.recv
  dsimp only
  split_ifs
  · apply Server.Holds.quiet
    · rw [hheld]
      exact List.subset_cons_self _ _
    · simp
  · apply Server.Holds.quiet
    · rw [hheld]
      exact List.Subset.refl _
    · simp
  · refine ⟨fun p hp => .inl ?_, fun key bytes h => ?_⟩
    · rw [hheld]
      exact List.mem_cons_of_mem _ hp
    · obtain ⟨rfl, rfl⟩ : key = packet.key ∧ bytes = payload packet.datagram := by simpa using h
      exact ⟨packet, hheld ▸ List.mem_cons_self, rfl, rfl⟩

theorem holds_check (hphase : s.phase = .checking) : s.Holds i (s.check so).1 (s.check so).2 := by
  have hheld : s.held = s.queue := by rw [Server.held, hphase]
  unfold Server.check
  split_ifs
  · apply Server.Holds.quiet
    · rw [hheld]
      exact List.Subset.refl _
    · intro key bytes h
      rcases List.mem_cons.mp h with h | h
      · cases h
      · obtain ⟨_, _, _, _, h⟩ := (mem_deaths_iff so).mp h
        cases h
  · apply Server.Holds.quiet
    · rw [hheld]
      exact List.Subset.refl _
    · simp

variable (so) in
theorem holds_step (s : Server) (i : ServerInput) : s.Holds i (s.step so i).1 (s.step so i).2 := by
  have hstill : s.Holds i s [] := .quiet (List.Subset.refl _) (by simp)
  cases i with
  | pass time => exact .quiet (List.Subset.refl _) (by simp [Server.step])
  | arrive key datagram =>
    refine ⟨fun packet hmem => ?_, by simp [Server.step]⟩
    unfold Server.held at hmem ⊢
    simp only [Server.step] at hmem
    split at hmem
    · simp only [← List.cons_append, List.mem_append, List.mem_singleton] at hmem
      exact hmem.imp_right fun heq => ⟨key, datagram, rfl, heq⟩
    · simp only [List.mem_append, List.mem_singleton] at hmem
      exact hmem.imp_right fun heq => ⟨key, datagram, rfl, heq⟩
  | timeout =>
    rw [Server.step]
    split
    · rename_i hready
      have hheld : s.held = s.queue := by rw [Server.held, hready.1]
      apply Server.Holds.quiet
      · rw [hheld]
        exact List.Subset.refl _
      · simp
    · exact hstill
  | recv drop =>
    rw [Server.step]
    split
    · rename_i hphase hqueue
      exact holds_recv hphase hqueue drop
    · exact hstill
  | wake =>
    rw [Server.step]
    split
    · rename_i wake packet hphase
      split
      · have hheld : s.held = packet :: s.queue := by rw [Server.held, hphase]
        refine ⟨fun p hp => .inl ?_, fun key bytes h => ?_⟩
        · rw [hheld]
          exact List.mem_cons_of_mem _ hp
        · obtain ⟨rfl, rfl⟩ : key = packet.key ∧ bytes = payload packet.datagram := by simpa using h
          exact ⟨packet, hheld ▸ List.mem_cons_self, rfl, rfl⟩
      · exact hstill
    · exact hstill
  | check =>
    rw [Server.step]
    split
    · rename_i hphase
      exact holds_check hphase
    · exact hstill

theorem mem_echoesTo {key bytes : Bytes} {out : List ServerOutput} :
    bytes ∈ echoesTo key out ↔ .echoed key bytes ∈ out := by
  unfold echoesTo
  rw [List.mem_filterMap]
  constructor
  · rintro ⟨x, hx, heq⟩
    cases x with
    | echoed address payload =>
      simp only [Option.ite_none_right_eq_some, Option.some.injEq] at heq
      obtain ⟨rfl, rfl⟩ := heq
      exact hx
    | _ => cases heq
  · intro h
    exact ⟨_, h, if_pos rfl⟩

/-! ## A client -/

theorem hear_reach (o : Options) {c : Client} {bytes : Bytes} (h : ∃ ping ∈ c.pings, payload ping = bytes) :
    ∃ k, c.step o (.reach k) = (c.hear bytes, []) := by
  obtain ⟨ping, hping, hbytes⟩ := h
  have hlt : c.pings.findIdx (fun ping => payload ping = bytes) < c.pings.length :=
    List.findIdx_lt_length_of_exists ⟨ping, hping, decide_eq_true hbytes⟩
  have hfound : payload c.pings[c.pings.findIdx fun ping => payload ping = bytes] = bytes :=
    of_decide_eq_true (List.findIdx_getElem (w := hlt))
  refine ⟨c.pings.findIdx (fun ping => payload ping = bytes), ?_⟩
  rw [Client.step, List.getElem?_eq_getElem hlt]
  dsimp only
  rw [hfound]
  rfl

theorem hearAll_run {o : Options} {echoes : List Bytes} : ∀ {c : Client} {out : List ClientOutput},
    (∀ bytes ∈ echoes, ∃ ping ∈ c.pings, payload ping = bytes) →
    (∃ inputs, (c, out) = (client o).run .init inputs) →
    ∃ inputs, (c.hearAll echoes, out) = (client o).run .init inputs := by
  induction echoes with
  | nil => exact fun _ hrun => hrun
  | cons bytes echoes ih =>
    intro c out hpings hrun
    obtain ⟨hping, hpings⟩ := List.forall_mem_cons.mp hpings
    obtain ⟨inputs, hrun⟩ := hrun
    obtain ⟨k, hstep⟩ := hear_reach o hping
    refine ih hpings ⟨inputs ++ [.reach k], ?_⟩
    rw [Machine.run_after, ← hrun, Machine.after]
    change _ = ((c.step o (.reach k)).1, out ++ (c.step o (.reach k)).2)
    rw [hstep, List.append_nil]

theorem pings_step (o : Options) (c : Client) (i : ClientInput) : c.pings ⊆ (c.step o i).1.pings := by
  have hmoves := clientStep_moves o c i
  generalize (c.step o i).1 = t at hmoves ⊢
  generalize (c.step o i).2 = new at hmoves
  cases hmoves with
  | lapses => exact List.Subset.refl _
  | sends => exact List.subset_append_left _ _
  | reaches => exact List.Subset.refl _
  | arrives => exact List.Subset.refl _
  | timesOut | receives | rejects =>
    rw [(finish_frame o _ _).2.2.2.2.1]
    exact List.Subset.refl _
  | wakes => exact List.Subset.refl _

theorem echoes_step (o : Options) (c : Client) {i : ClientInput} (hi : ∀ k, i ≠ .reach k) :
    (c.step o i).1.echoes = c.echoes := by
  cases i with
  | pass time =>
    rw [Client.step, Client.pass]
    split
    · split
      · rw [(finish_frame o _ _).2.2.2.2.2]
      · rfl
    · rfl
  | send tsMs =>
    rw [Client.step]
    split <;> rfl
  | reach k => exact absurd rfl (hi k)
  | arrive k =>
    rw [Client.step]
    split <;> rfl
  | recv =>
    rw [Client.step]
    split
    · rw [Client.recv]
      split <;> rw [(finish_frame o _ _).2.2.2.2.2]
    · rfl
  | wake =>
    rw [Client.step]
    split
    · split <;> rfl
    · rfl

theorem echoes_subset (o : Options) (c : Client) (i : ClientInput) : c.echoes ⊆ (c.step o i).1.echoes := by
  by_cases hreach : ∃ k, i = .reach k
  · obtain ⟨k, rfl⟩ := hreach
    rw [Client.step]
    split
    · exact List.subset_append_left _ _
    · exact List.Subset.refl _
  · rw [echoes_step o c fun k heq => hreach ⟨k, heq⟩]
    exact List.Subset.refl _

def Client.Counted (c : Client) : Prop := c.received + c.lost + 1 = c.turn

theorem counted_finish {o : Options} {c t : Client} {deadline : Nat} (h : c.Counted)
    (hphase : c.phase = .waiting deadline) (hseq : t.seq = c.seq)
    (hcount : t.received + t.lost = c.received + c.lost + 1) (time : Nat) : (t.finish o time).Counted := by
  obtain ⟨-, hreceived, hlost, -⟩ := finish_frame o t time
  rw [Client.Counted, turn_waiting hphase] at h
  rw [Client.Counted, hreceived, hlost, turn_finish, hseq]
  omega

theorem Client.Counted.step {o : Options} {c t : Client} {i : ClientInput} {new : List ClientOutput}
    (h : c.Counted) (hmoves : ClientMoves o c i t new) : t.Counted := by
  cases hmoves with
  | lapses | reaches | arrives => exact h
  | timesOut hphase | rejects hphase =>
    apply counted_finish h hphase
    · rfl
    · rfl
  | receives hphase =>
    apply counted_finish h hphase
    · rfl
    · exact Nat.add_right_comm _ _ _
  | sends tsMs hphase =>
    rw [Client.Counted, turn_sending hphase] at h
    exact h
  | wakes hphase =>
    rw [Client.Counted, turn_sleeping hphase] at h
    rw [Client.Counted, turn_advance]
    exact h

/-- What a reply was read in: an echo of the server, for this ping or one before it, or a stray. -/
inductive Told (strays : List Bytes) (c : Client) (seq : Nat) (respSeq : Int) : Prop where
  | echo {d : Datagram} {tsMs : Int} : d ∈ c.echoes → respSeq ≤ seq →
    parsePingPayload (payload d.bytes) = some (respSeq, tsMs) → Told strays c seq respSeq
  | stray {datagram : Bytes} {tsMs : Int} : datagram ∈ strays →
    parsePingPayload (payload datagram) = some (respSeq, tsMs) → Told strays c seq respSeq

theorem Told.later {strays strays' : List Bytes} {c t : Client} {seq : Nat} {respSeq : Int}
    (h : Told strays c seq respSeq) (hstrays : strays ⊆ strays') (hechoes : c.echoes ⊆ t.echoes) :
    Told strays' t seq respSeq := by
  cases h with
  | echo hd hle hparse => exact .echo (hechoes hd) hle hparse
  | stray hdatagram hparse => exact .stray (hstrays hdatagram) hparse

/-- What holds of a client whatever comes to its socket. -/
structure Client.Sound (o : Options) (strays : List Bytes) (c : Client) (out : List ClientOutput) : Prop where
  placed : c.Placed o
  genuine : Genuine o strays c
  counted : c.Counted
  told : ∀ seq respSeq, .reply seq respSeq ∈ out → Told strays c seq respSeq

theorem sound_init (o : Options) : Client.init.Sound o [] [] where
  placed := ⟨Nat.le_refl 1, o.count_pos, rfl⟩
  genuine := ⟨by simp [Client.init], by simp [Client.init], by simp [Client.init]⟩
  counted := rfl
  told _ _ h := absurd h List.not_mem_nil

section Sound

variable {o : Options} {strays : List Bytes} {c : Client} {out : List ClientOutput}

theorem Client.Sound.step (h : c.Sound o strays out) (i : ClientInput) :
    (c.step o i).1.Sound o strays (out ++ (c.step o i).2) := by
  have hmoves := clientStep_moves o c i
  have hechoes := echoes_subset o c i
  generalize (c.step o i).1 = t at hmoves hechoes ⊢
  generalize (c.step o i).2 = new at hmoves ⊢
  refine ⟨h.placed.step hmoves, h.genuine.step h.placed hmoves, h.counted.step hmoves, ?_⟩
  intro seq respSeq hreply
  rcases List.mem_append.mp hreply with hreply | hreply
  · exact (h.told seq respSeq hreply).later (List.Subset.refl _) hechoes
  · cases hmoves with
    | @receives deadline d buffer respSeq' respTs hphase hbuffer hparse =>
      obtain ⟨rfl, rfl⟩ : seq = c.seq ∧ respSeq = respSeq' := by simpa using hreply
      rcases h.genuine.buffer d (hbuffer ▸ List.mem_cons_self) with hd | hd
      · -- An echo is of a ping that is out, and none is out beyond the one that is waited for.
        obtain ⟨hle, tsMs, hping⟩ := h.genuine.echoes d hd
        obtain ⟨rfl, -⟩ : (d.ping : Int) = respSeq ∧ tsMs = respTs := by simpa [hparse, eq_comm] using hping
        have hlength := h.placed.bounds.2.1
        rw [turn_waiting hphase] at hlength
        exact .echo (hechoes hd) (by omega) hparse
      · exact .stray hd hparse
    | _ => simp at hreply

theorem Client.Sound.hear (h : c.Sound o strays out) {bytes : Bytes}
    (hping : ∃ ping ∈ c.pings, payload ping = bytes) : (c.hear bytes).Sound o strays out := by
  obtain ⟨k, hstep⟩ := hear_reach o hping
  have hsound := h.step (.reach k)
  rwa [hstep, List.append_nil] at hsound

theorem Client.Sound.hearAll {echoes : List Bytes} : ∀ {c : Client}, c.Sound o strays out →
    (∀ bytes ∈ echoes, ∃ ping ∈ c.pings, payload ping = bytes) → (c.hearAll echoes).Sound o strays out := by
  induction echoes with
  | nil => exact fun h _ => h
  | cons bytes echoes ih =>
    intro c h hpings
    obtain ⟨hping, hpings⟩ := List.forall_mem_cons.mp hpings
    exact ih (h.hear hping) hpings

theorem Client.Sound.intrude (h : c.Sound o strays out) (datagram : Bytes) :
    (c.intrude datagram).Sound o (strays ++ [datagram]) out := by
  refine ⟨h.placed, ⟨h.genuine.pings, h.genuine.echoes, fun d hd => ?_⟩, h.counted,
    fun seq respSeq hreply => ?_⟩
  · rcases List.mem_append.mp hd with hd | hd
    · exact (h.genuine.buffer d hd).imp_right (List.mem_append_left _)
    · rw [List.mem_singleton.mp hd]
      exact .inr (List.mem_append_right _ (List.mem_singleton_self _))
  · exact (h.told seq respSeq hreply).later (List.subset_append_left _ _) (List.Subset.refl _)

end Sound

/-! ## All together -/

theorem hearAll_pings (c : Client) (echoes : List Bytes) : (c.hearAll echoes).pings = c.pings := by
  induction echoes generalizing c with
  | nil => rfl
  | cons bytes echoes ih => exact ih (c.hear bytes)

theorem mem_hearAll {c : Client} {echoes : List Bytes} {d : Datagram} (h : d ∈ (c.hearAll echoes).echoes) :
    d ∈ c.echoes ∨ d.bytes ∈ echoes := by
  induction echoes generalizing c with
  | nil => exact .inl h
  | cons bytes echoes ih =>
    rcases ih h with h | h
    · rcases List.mem_append.mp h with h | h
      · exact .inl h
      · rw [List.mem_singleton.mp h]
        exact .inr List.mem_cons_self
    · exact .inr (List.mem_cons_of_mem _ h)

/-- A client at its address, beside the server. -/
structure Beside (o : Options) (key : Bytes) (serving : Server × List ServerOutput) (strays : List Bytes)
    (x : Client × List ClientOutput) : Prop where
  alone : strays = [] → ∃ inputs, x = (client o).run .init inputs
  sound : x.1.Sound o strays x.2
  held : ∀ packet ∈ serving.1.held, packet.key = key → packet.datagram ∈ x.1.pings
  echoed : ∀ d ∈ x.1.echoes, .echoed key d.bytes ∈ serving.2

section Beside

variable {o : Options} {key : Bytes} {serving : Server × List ServerOutput} {strays : List Bytes}
  {x : Client × List ClientOutput}

theorem Beside.moves (h : Beside o key serving strays x) {i : ClientInput} (hi : ∀ k, i ≠ .reach k) :
    Beside o key serving strays ((client o).after x i) := by
  refine ⟨fun hnone => ?_, h.sound.step i, fun packet hmem hkey => ?_, fun d hd => h.echoed d ?_⟩
  · obtain ⟨inputs, hrun⟩ := h.alone hnone
    exact ⟨inputs ++ [i], by rw [hrun, Machine.run_after]⟩
  · exact pings_step o x.1 i (h.held packet hmem hkey)
  · have hsame : ((client o).after x i).1.echoes = x.1.echoes := echoes_step o x.1 hi
    rwa [hsame] at hd

variable (so) in
theorem Beside.served (h : Beside o key serving strays x) {i : ServerInput}
    (hi : ∀ datagram, i = .arrive key datagram → datagram ∈ x.1.pings) :
    Beside o key ((server so).after serving i) strays x := by
  refine ⟨h.alone, h.sound, fun packet hmem hkey => ?_, fun d hd => List.mem_append_left _ (h.echoed d hd)⟩
  rcases (holds_step so serving.1 i).held packet hmem with hmem | ⟨other, datagram, rfl, rfl⟩
  · exact h.held packet hmem hkey
  · exact hi datagram (by rw [← hkey])

theorem Beside.hears (h : Beside o key serving strays x) {echoes : List Bytes}
    (hpings : ∀ bytes ∈ echoes, ∃ ping ∈ x.1.pings, payload ping = bytes)
    (hechoes : ∀ bytes ∈ echoes, .echoed key bytes ∈ serving.2) :
    Beside o key serving strays (x.1.hearAll echoes, x.2) := by
  refine ⟨fun hnone => hearAll_run hpings (h.alone hnone), h.sound.hearAll hpings, ?_, fun d hd => ?_⟩
  · rw [hearAll_pings]
    exact h.held
  · exact (mem_hearAll hd).elim (h.echoed d) (hechoes d.bytes)

theorem Beside.intruded (h : Beside o key serving strays x) (datagram : Bytes) :
    Beside o key serving (strays ++ [datagram]) (x.1.intrude datagram, x.2) :=
  ⟨fun hnone => absurd hnone (by simp), h.sound.intrude datagram, h.held, h.echoed⟩

end Beside

variable (so co At) in
structure World.Fits (w : World) : Prop where
  serving : ∃ inputs, w.serving = (server so).run .init inputs
  clients : ∀ key, At key → Beside (co key) key w.serving (w.strays key) (w.clients key)

theorem fits_step (h : w.Fits so co At) (hstep : w.Step so co At w') : w'.Fits so co At := by
  obtain ⟨⟨inputs, hserving⟩, hclients⟩ := h
  have hserved : ∀ i, ∃ inputs, (server so).after w.serving i = (server so).run .init inputs := fun i =>
    ⟨inputs ++ [i], by rw [hserving, Machine.run_after]⟩
  cases hstep with
  | pass time =>
    refine ⟨hserved _, fun key hkey => ?_⟩
    have hmoves := (hclients key hkey).moves (i := .pass time) fun _ heq => by cases heq
    exact hmoves.served so fun _ heq => by cases heq
  | @client key hkey i hi =>
    refine ⟨⟨inputs, hserving⟩, fun other hat => ?_⟩
    by_cases heq : other = key
    · subst heq
      dsimp only
      rw [Function.update_self]
      refine (hclients other hat).moves fun k heq => ?_
      subst heq
      exact hi
    · dsimp only
      rw [Function.update_of_ne heq]
      exact hclients other hat
  | @arrives key hkey ping hping =>
    refine ⟨hserved _, fun other hat => (hclients other hat).served so fun datagram heq => ?_⟩
    cases heq
    exact hping
  | @strange key hkey datagram =>
    refine ⟨hserved _, fun other hat => (hclients other hat).served so fun datagram heq => ?_⟩
    cases heq
    exact absurd hat hkey
  | @intrudes key hkey datagram =>
    refine ⟨⟨inputs, hserving⟩, fun other hat => ?_⟩
    by_cases heq : other = key
    · subst heq
      dsimp only
      rw [Function.update_self, Function.update_self]
      exact (hclients other hat).intruded datagram
    · dsimp only
      rw [Function.update_of_ne heq, Function.update_of_ne heq]
      exact hclients other hat
  | @serves i hi =>
    refine ⟨hserved _, fun key hkey => ?_⟩
    have hbeside := hclients key hkey
    refine (hbeside.served so fun datagram heq => ?_).hears (fun bytes hbytes => ?_) fun bytes hbytes =>
      List.mem_append_right _ (mem_echoesTo.mp hbytes)
    · subst heq
      exact hi.elim
    · -- The server echoes what it holds, and that is a ping of the client.
      obtain ⟨packet, hpacket, hpkey, hpayload⟩ :=
        (holds_step so w.serving.1 i).echoed key bytes (mem_echoesTo.mp hbytes)
      exact ⟨packet.datagram, hbeside.held packet hpacket hpkey, hpayload⟩

theorem fits_reachable (h : (together so co At).Reachable w) : w.Fits so co At := by
  refine h.invariant (J := fun _ => True) (I := fun w => w.Fits so co At) (fun _ _ => trivial) ?_
    fun _ _ _ _ hfits hstep => fits_step hfits hstep
  rintro _ rfl
  refine ⟨⟨[], rfl⟩, fun key _ => ⟨fun _ => ⟨[], rfl⟩, sound_init (co key), ?_, ?_⟩⟩
  · exact fun _ hmem => absurd hmem List.not_mem_nil
  · exact fun _ hd => absurd hd List.not_mem_nil

/-- **Together.** The server runs as it does by itself; and each client to which no stranger has sent anything
runs as it does before a network that echoes its pings. What a client prints as a reply has been echoed to it
by the server, for this ping or one before it, or was in a datagram that a stranger has sent to it; and in the
end all its pings are counted. -/
theorem clients_together (so : ServerOptions) (co : Bytes → Options) (At : Bytes → Prop) (w : World)
    (h : (together so co At).Reachable w) :
    (∃ inputs, w.serving = (server so).run .init inputs) ∧ ∀ key, At key →
      (w.strays key = [] → ∃ inputs, w.clients key = (client (co key)).run .init inputs) ∧
      (∀ (seq : Nat) (respSeq : Int), .reply seq respSeq ∈ (w.clients key).2 → ∃ bytes tsMs,
        parsePingPayload (payload bytes) = some (respSeq, tsMs) ∧
          (.echoed key bytes ∈ w.serving.2 ∧ respSeq ≤ seq ∨ bytes ∈ w.strays key)) ∧
      ((w.clients key).1.phase = .done →
        (w.clients key).1.received + (w.clients key).1.lost = (co key).count) := by
  have hfits := fits_reachable h
  refine ⟨hfits.serving, fun key hkey => ?_⟩
  have hbeside := hfits.clients key hkey
  refine ⟨hbeside.alone, fun seq respSeq hreply => ?_, fun hdone => ?_⟩
  · cases hbeside.sound.told seq respSeq hreply with
    | echo hd hle hparse => exact ⟨_, _, hparse, .inl ⟨hbeside.echoed _ hd, hle⟩⟩
    | stray hdatagram hparse => exact ⟨_, _, hparse, .inr hdatagram⟩
  · have hcounted := hbeside.sound.counted
    rw [Client.Counted, hbeside.sound.placed.turn_of_done hdone] at hcounted
    omega

end Together

def oneOptions : Options :=
  { heartbeatMode := false, count := 7, timeoutMs := 750, intervalMs := 0, count_pos := by decide
    count_lt := by decide, timeout_pos := by decide }

/-- One ping goes to the server and comes back, and then a stranger answers the second one. -/
theorem one_together : ∃ w,
    (together ⟨0, 0⟩ (fun _ => oneOptions) (fun key => key = [1])).Reachable w ∧
      .reply 1 1 ∈ (w.clients [1]).2 ∧ .reply 2 7 ∈ (w.clients [1]).2 ∧
        (∃ bytes, .echoed [1] bytes ∈ w.serving.2) ∧ w.strays [1] = [ofString "Ping 7 0"] := by
  let so : ServerOptions := ⟨0, 0⟩
  let co : Bytes → Options := fun _ => oneOptions
  let At : Bytes → Prop := fun key => key = [1]
  obtain ⟨w, hw, hreply, hstrange, hstrays⟩ : ∃ w, (together so co At).Reachable w ∧
      .reply 1 1 ∈ (w.clients [1]).2 ∧ .reply 2 7 ∈ (w.clients [1]).2 ∧
        w.strays [1] = [ofString "Ping 7 0"] := by
    have hinit : (together so co At).Reachable ⟨(.init, []), fun _ => (.init, []), fun _ => []⟩ := .init rfl
    have hsent := hinit.step (@World.Step.client so co At _ [1] rfl (.send 5) trivial)
    have hping : message false 1 5 ∈ ((client oneOptions).after (Client.init, []) (.send 5)).1.pings := by
      decide +kernel
    have harrived := hsent.step (@World.Step.arrives so co At _ [1] rfl (message false 1 5) hping)
    have hechoed := harrived.step (@World.Step.serves so co At _ (.recv false) trivial)
    have hcame := hechoed.step (@World.Step.client so co At _ [1] rfl (.arrive 0) trivial)
    have hread := hcame.step (@World.Step.client so co At _ [1] rfl .recv trivial)
    have hagain := hread.step (@World.Step.client so co At _ [1] rfl (.send 6) trivial)
    have hintruded := hagain.step (@World.Step.intrudes so co At _ [1] rfl (ofString "Ping 7 0"))
    have htold := hintruded.step (@World.Step.client so co At _ [1] rfl .recv trivial)
    exact ⟨_, htold, by decide +kernel, by decide +kernel, rfl⟩
  obtain ⟨-, hreplies, -⟩ := (clients_together so co At w hw).2 [1] rfl
  obtain ⟨bytes, tsMs, hparse, hfrom⟩ := hreplies 1 1 hreply
  refine ⟨w, hw, hreply, hstrange, ⟨bytes, ?_⟩, hstrays⟩
  rcases hfrom with ⟨hechoed, -⟩ | hstray
  · exact hechoed
  · -- The stranger has not said this.
    rw [hstrays, List.mem_singleton] at hstray
    have hseven : parsePingPayload (payload (ofString "Ping 7 0")) = some (7, 0) := by decide +kernel
    rw [hstray, hseven] at hparse
    exact absurd (congrArg Prod.fst (Option.some.inj hparse)) (by decide : (7 : Int) ≠ 1)

end Pinger
