import ComputerNetworks.Pinger.Client
import Mathlib.Tactic.Common

/-!
# What the client reads

Where in its loop the client is, what is on its way to it, and in which iteration it reads that.
-/

open Lib Lib.Number

namespace Pinger

variable (o : Options)

/-! ## Where the client is -/

def Client.Placed (c : Client) : Prop :=
  match c.phase with
  | .sending => 1 ≤ c.seq ∧ c.seq ≤ o.count ∧ c.pings.length + 1 = c.seq
  | .waiting _ => 1 ≤ c.seq ∧ c.seq ≤ o.count ∧ c.pings.length = c.seq
  | .sleeping _ => c.seq < o.count ∧ c.pings.length = c.seq
  | .done => c.seq = o.count + 1 ∧ c.pings.length + 1 = c.seq

variable {o} {c t : Client} {i : ClientInput} {out new : List ClientOutput}

theorem Client.Placed.bounds (h : c.Placed o) :
    c.pings.length ≤ o.count ∧ c.pings.length ≤ c.turn ∧ c.turn ≤ c.pings.length + 1 := by
  unfold Client.Placed at h
  unfold Client.turn
  cases hphase : c.phase <;> simp only [hphase] at h ⊢ <;> omega

theorem Client.Placed.waiting_of_length (h : c.Placed o) (hlength : c.pings.length = c.turn) :
    ∃ deadline, c.phase = .waiting deadline := by
  unfold Client.Placed at h
  unfold Client.turn at hlength
  cases hphase : c.phase with
  | waiting deadline => exact ⟨deadline, rfl⟩
  | _ =>
    simp only [hphase] at h hlength
    omega

theorem Client.Placed.turn_of_done (h : c.Placed o) (hdone : c.phase = .done) :
    c.turn = o.count + 1 := by
  unfold Client.Placed at h
  unfold Client.turn
  rw [hdone] at h ⊢
  exact h.1

theorem Client.Placed.sending (h : c.Placed o) (hphase : c.phase = .sending) :
    c.pings.length + 1 = c.seq := by
  unfold Client.Placed at h
  rw [hphase] at h
  exact h.2.2

theorem Client.Placed.waiting (h : c.Placed o) {deadline : Nat} (hphase : c.phase = .waiting deadline) :
    1 ≤ c.seq ∧ c.seq ≤ o.count ∧ c.pings.length = c.seq := by
  unfold Client.Placed at h
  rwa [hphase] at h

theorem turn_sending (hphase : c.phase = .sending) : c.turn = c.seq := by rw [Client.turn, hphase]

theorem turn_waiting {deadline : Nat} (hphase : c.phase = .waiting deadline) : c.turn = c.seq := by
  rw [Client.turn, hphase]

theorem turn_sleeping {wake : Nat} (hphase : c.phase = .sleeping wake) : c.turn = c.seq + 1 := by
  rw [Client.turn, hphase]

theorem placed_advance (hseq : c.seq ≤ o.count) (hpings : c.pings.length = c.seq) :
    (c.advance o).Placed o := by
  unfold Client.Placed Client.advance
  dsimp only
  split <;> rename_i hphase <;> split at hphase <;> cases hphase <;> omega

theorem Client.Placed.finish (h : c.Placed o) {deadline : Nat} (hphase : c.phase = .waiting deadline)
    (hseq : t.seq = c.seq) (hpings : t.pings = c.pings) (time : Nat) : (t.finish o time).Placed o := by
  obtain ⟨-, hle, hlength⟩ := h.waiting hphase
  rw [← hseq] at hle
  rw [← hpings, ← hseq] at hlength
  unfold Client.finish
  split
  · rename_i hsleep
    exact ⟨Nat.lt_of_le_of_ne hle hsleep.1, hlength⟩
  · exact placed_advance hle hlength

theorem Client.Placed.step (h : c.Placed o) (hmoves : ClientMoves o c i t new) : t.Placed o := by
  cases hmoves with
  | lapses => exact h
  | timesOut hphase =>
    apply h.finish hphase
    · rfl
    · rfl
  | sends tsMs hphase =>
    unfold Client.Placed at h ⊢
    rw [hphase] at h
    exact ⟨h.1, h.2.1, by simpa using h.2.2⟩
  | reaches => exact h
  | arrives => exact h
  | receives hphase =>
    apply h.finish hphase
    · rfl
    · rfl
  | rejects hphase =>
    apply h.finish hphase
    · rfl
    · rfl
  | wakes hphase =>
    unfold Client.Placed at h
    rw [hphase] at h
    exact placed_advance h.1.le h.2

/-! ## What is on its way -/

variable (o) in
/-- Every echo is one of a ping that has been sent, and is read as that. What is unread is an echo, or a
stray datagram of somebody else. -/
structure Genuine (strays : List Bytes) (c : Client) : Prop where
  pings : ∀ k ping, c.pings[k]? = some ping → ∃ tsMs, ping = message o.heartbeatMode (k + 1 : Nat) tsMs
  echoes : ∀ d ∈ c.echoes, d.ping ≤ c.pings.length ∧
    ∃ tsMs, parsePingPayload (payload d.bytes) = some ((d.ping : Int), tsMs)
  buffer : ∀ d ∈ c.buffer, d ∈ c.echoes ∨ d.bytes ∈ strays

variable {strays : List Bytes}

theorem parse_echo (k : Nat) (hk : k < o.count) (tsMs : Int64) :
    parsePingPayload (payload (payload (message o.heartbeatMode (k + 1 : Nat) tsMs))) =
      some (((k + 1 : Nat) : Int), tsMs.toInt) := by
  have hint : IsInt (k + 1 : Nat) := by
    have hcount := o.count_lt
    exact ⟨by omega, by omega⟩
  rw [payload_message _ hint, payload_message _ hint, parsePingPayload_message _ hint]

theorem Genuine.parse_head (h : Genuine o [] c) {d : Datagram} {buffer : List Datagram}
    (hbuffer : c.buffer = d :: buffer) :
    ∃ tsMs, parsePingPayload (payload d.bytes) = some ((d.ping : Int), tsMs) := by
  have hecho := (h.buffer d (hbuffer ▸ List.mem_cons_self)).resolve_right List.not_mem_nil
  exact (h.echoes d hecho).2

theorem Genuine.finish (time : Nat) (h : Genuine o strays c) : Genuine o strays (c.finish o time) := by
  obtain ⟨-, -, -, hbuffer, hpings, hechoes⟩ := finish_frame o c time
  refine ⟨?_, ?_, ?_⟩
  · rw [hpings]
    exact h.pings
  · rw [hpings, hechoes]
    exact h.echoes
  · rw [hbuffer, hechoes]
    exact h.buffer

theorem Genuine.step (h : Genuine o strays c) (hplaced : c.Placed o) (hmoves : ClientMoves o c i t new) :
    Genuine o strays t := by
  cases hmoves with
  | lapses => exact ⟨h.pings, h.echoes, h.buffer⟩
  | timesOut => exact Genuine.finish _ ⟨h.pings, h.echoes, h.buffer⟩
  | sends tsMs hphase =>
    have hlength := hplaced.sending hphase
    refine ⟨fun k ping hping => ?_, fun d hd => ?_, h.buffer⟩
    · rw [List.getElem?_append] at hping
      split at hping
      · exact h.pings k ping hping
      · obtain ⟨hk, rfl⟩ : k - c.pings.length = 0 ∧ message o.heartbeatMode c.seq tsMs = ping := by
          simpa [List.getElem?_singleton] using hping
        have hseq : k + 1 = c.seq := by omega
        exact ⟨tsMs, by rw [hseq]⟩
    · obtain ⟨hle, hparse⟩ := h.echoes d hd
      exact ⟨by rw [List.length_append]; omega, hparse⟩
  | @reaches k ping hping =>
    refine ⟨h.pings, fun d hd => ?_, fun d hd => (h.buffer d hd).imp_left (List.mem_append_left _)⟩
    rcases List.mem_append.mp hd with hd | hd
    · exact h.echoes d hd
    · obtain rfl := List.mem_singleton.mp hd
      have hk := (List.getElem?_eq_some_iff.mp hping).1
      obtain ⟨tsMs, rfl⟩ := h.pings k ping hping
      exact ⟨hk, tsMs.toInt, parse_echo k (hk.trans_le hplaced.bounds.1) tsMs⟩
  | @arrives k d _ hd =>
    refine ⟨h.pings, h.echoes, fun d' hd' => ?_⟩
    rcases List.mem_append.mp hd' with hd' | hd'
    · exact h.buffer d' hd'
    · obtain rfl := List.mem_singleton.mp hd'
      exact .inl (List.mem_of_getElem? hd)
  | receives _ hbuffer =>
    exact Genuine.finish _ ⟨h.pings, h.echoes, fun d hd => h.buffer d (hbuffer ▸ List.mem_cons_of_mem _ hd)⟩
  | rejects _ hbuffer =>
    exact Genuine.finish _ ⟨h.pings, h.echoes, fun d hd => h.buffer d (hbuffer ▸ List.mem_cons_of_mem _ hd)⟩
  | wakes => exact ⟨h.pings, h.echoes, h.buffer⟩

/-! ## First in, first out -/

/-- Whose echo arrived, and the iteration that is going to read it. -/
def ClientOutput.arrival : ClientOutput → Option (Int × Nat)
  | .arrived ping slot _ => some (ping, slot)
  | _ => none

/-- What was read, and in which iteration. -/
def ClientOutput.answer : ClientOutput → Option (Int × Nat)
  | .reply seq respSeq => some (respSeq, seq)
  | _ => none

def Client.pending (c : Client) : List (Int × Nat) :=
  (c.buffer.map fun d => (d.ping : Int)).zipIdx c.turn

/-- Each echo is read in its slot. -/
structure Queued (c : Client) (out : List ClientOutput) : Prop where
  fifo : out.filterMap (·.arrival) = out.filterMap (·.answer) ++ c.pending
  causal : ∀ ping slot time, .arrived ping slot time ∈ out → ping ≤ slot
  read_lt : ∀ seq respSeq, .reply seq respSeq ∈ out → seq < c.turn

/-- Which ping a reply is to is settled when its echo arrives. -/
theorem Queued.exists_arrived (h : Queued c out) {seq : Nat} {respSeq : Int}
    (hmem : .reply seq respSeq ∈ out) :
    ∃ (ping came : Nat), (ping : Int) = respSeq ∧ .arrived ping seq came ∈ out := by
  have hanswer : (respSeq, seq) ∈ out.filterMap (·.arrival) := by
    rw [h.fifo]
    exact List.mem_append_left _ (List.mem_filterMap.mpr ⟨_, hmem, rfl⟩)
  obtain ⟨x, hx, harrival⟩ := List.mem_filterMap.mp hanswer
  cases x with
  | arrived ping slot came =>
    obtain ⟨rfl, rfl⟩ : (ping : Int) = respSeq ∧ slot = seq := by
      simpa [ClientOutput.arrival] using harrival
    exact ⟨ping, came, rfl, hx⟩
  | _ => cases harrival

theorem Queued.of_arrived (h : Queued c out) {ping slot came : Nat}
    (hmem : .arrived ping slot came ∈ out) : .reply slot ping ∈ out ∨ ((ping : Int), slot) ∈ c.pending := by
  have harrival : ((ping : Int), slot) ∈ out.filterMap (·.arrival) :=
    List.mem_filterMap.mpr ⟨_, hmem, rfl⟩
  rw [h.fifo] at harrival
  refine (List.mem_append.mp harrival).imp_left fun hanswer => ?_
  obtain ⟨x, hx, hanswer⟩ := List.mem_filterMap.mp hanswer
  cases x with
  | reply seq respSeq =>
    obtain ⟨rfl, rfl⟩ : respSeq = ping ∧ seq = slot := by simpa [ClientOutput.answer] using hanswer
    exact hx
  | _ => cases hanswer

theorem pending_finish (time : Nat) :
    (c.finish o time).pending = (c.buffer.map fun d => (d.ping : Int)).zipIdx (c.seq + 1) := by
  obtain ⟨-, -, -, hbuffer, -, -⟩ := finish_frame o c time
  rw [Client.pending, hbuffer, turn_finish]

theorem Queued.of_quiet (h : Queued c out) (hpending : t.pending = c.pending) (hturn : c.turn ≤ t.turn)
    (harrival : ∀ x ∈ new, x.arrival = none) (hanswer : ∀ x ∈ new, x.answer = none) :
    Queued t (out ++ new) := by
  refine ⟨?_, fun ping slot time hmem => ?_, fun seq respSeq hmem => ?_⟩
  · rw [List.filterMap_append, List.filterMap_append, List.filterMap_eq_nil_iff.mpr harrival,
      List.filterMap_eq_nil_iff.mpr hanswer, List.append_nil, List.append_nil, hpending, h.fifo]
  · rcases List.mem_append.mp hmem with hmem | hmem
    · exact h.causal ping slot time hmem
    · cases harrival _ hmem
  · rcases List.mem_append.mp hmem with hmem | hmem
    · exact (h.read_lt seq respSeq hmem).trans_le hturn
    · cases hanswer _ hmem

theorem Queued.arrive (h : Queued c out) (hplaced : c.Placed o) {d : Datagram}
    (hd : d.ping ≤ c.pings.length) :
    Queued { c with buffer := c.buffer ++ [d] } (out ++ [.arrived d.ping c.slot c.now]) := by
  have hpending : ({ c with buffer := c.buffer ++ [d] } : Client).pending =
      c.pending ++ [((d.ping : Int), c.slot)] := by
    unfold Client.pending
    rw [List.map_append, List.zipIdx_append, List.length_map]
    rfl
  refine ⟨?_, fun ping slot time hmem => ?_, fun seq respSeq hmem => ?_⟩
  · rw [List.filterMap_append, List.filterMap_append, hpending, h.fifo, List.append_assoc,
      List.append_assoc]
    rfl
  · rcases List.mem_append.mp hmem with hmem | hmem
    · exact h.causal ping slot time hmem
    · obtain ⟨rfl, rfl, -⟩ : ping = d.ping ∧ slot = c.slot ∧ time = c.now := by simpa using hmem
      exact (hd.trans hplaced.bounds.2.1).trans (Nat.le_add_right _ _)
  · rcases List.mem_append.mp hmem with hmem | hmem
    · exact h.read_lt seq respSeq hmem
    · simp at hmem

theorem Queued.step (h : Queued c out) (hplaced : c.Placed o) (hgenuine : Genuine o [] c)
    (hmoves : ClientMoves o c i t new) : Queued t (out ++ new) := by
  cases hmoves with
  | lapses => exact h.of_quiet rfl (Nat.le_refl _) (by simp) (by simp)
  | timesOut hphase hbuffer =>
    refine h.of_quiet ?_ ?_ (by simp [ClientOutput.arrival]) (by simp [ClientOutput.answer])
    · rw [pending_finish, Client.pending, hbuffer]
      rfl
    · rw [turn_finish, turn_waiting hphase]
      exact Nat.le_succ _
  | sends tsMs hphase =>
    have hturn := turn_sending hphase
    refine h.of_quiet ?_ hturn.le (by simp [ClientOutput.arrival]) (by simp [ClientOutput.answer])
    unfold Client.pending
    rw [hturn]
    rfl
  | reaches => exact h.of_quiet rfl (Nat.le_refl _) (by simp) (by simp)
  | arrives _ hd => exact h.arrive hplaced (hgenuine.echoes _ (List.mem_of_getElem? hd)).1
  | @receives deadline d buffer respSeq respTs hphase hbuffer hparse =>
    obtain ⟨tsMs, hping⟩ := hgenuine.parse_head hbuffer
    obtain ⟨rfl, -⟩ : (d.ping : Int) = respSeq ∧ tsMs = respTs := by simpa [hparse, eq_comm] using hping
    have hpending : c.pending = ((d.ping : Int), c.seq) ::
        (buffer.map fun d => (d.ping : Int)).zipIdx (c.seq + 1) := by
      rw [Client.pending, hbuffer, turn_waiting hphase]
      rfl
    refine ⟨?_, fun ping slot time hmem => ?_, fun seq respSeq hmem => ?_⟩
    · rw [List.filterMap_append, List.filterMap_append, h.fifo, hpending, pending_finish]
      simp [ClientOutput.arrival, ClientOutput.answer]
    · rcases List.mem_append.mp hmem with hmem | hmem
      · exact h.causal ping slot time hmem
      · simp at hmem
    · rw [turn_finish]
      rcases List.mem_append.mp hmem with hmem | hmem
      · exact (h.read_lt seq respSeq hmem).trans (by rw [turn_waiting hphase]; exact Nat.lt_succ_self _)
      · obtain ⟨rfl, -⟩ : seq = c.seq ∧ respSeq = (d.ping : Int) := by simpa using hmem
        exact Nat.lt_succ_self _
  | @rejects deadline d buffer hphase hbuffer hparse =>
    obtain ⟨tsMs, hping⟩ := hgenuine.parse_head hbuffer
    cases hparse.symm.trans hping
  | wakes hphase =>
    have hturn : (c.advance o).turn = c.turn := by rw [turn_advance, turn_sleeping hphase]
    refine h.of_quiet ?_ hturn.ge (by simp) (by simp)
    rw [Client.pending, hturn]
    rfl

end Pinger
