import ComputerNetworks.Lib.Machine
import ComputerNetworks.Rdtp.Codec
import ComputerNetworks.Rdtp.Receiver

/-!
# Datagrams from elsewhere

The receiver keeps the address of its first packet, for its ACKs. It does not ask where a later packet
comes from.
-/

open Lib

namespace Rdtp

variable {Addr : Type}

/-! ## The receiver as a machine -/

/-- What the receiver does with a datagram that arrives: nothing once it has left its loop. -/
def Receiver.take (r : Receiver Addr) (d : Addr × Bytes) : Receiver Addr × List (Addr × Bytes) :=
  if r.finished then (r, []) else r.onDatagram d.1 d.2

def receiving (Addr : Type) : Machine (Receiver Addr) (Addr × Bytes) (Addr × Bytes) :=
  ⟨Receiver.take⟩

/-- The receiver does nothing with the datagram, wherever it comes from: it has left its loop, or this
is no packet, or an ACK, or a packet out of order before any data. -/
def Receiver.Ignores (r : Receiver Addr) (datagram : Bytes) : Prop :=
  r.finished = true ∨ ∀ pkt, parsePacket (recvfrom receiverBuf datagram) = some pkt →
    pkt.type = .ack ∨ pkt.seq ≠ r.expected ∧ r.lastInOrderAck = noDataYet

theorem Receiver.meet_of_peer {r : Receiver Addr} {peer : Addr} (h : r.peer = some peer)
    (source : Addr) : r.meet source = r := by
  rw [Receiver.meet, h]

theorem Receiver.sendAck_of_peer {r : Receiver Addr} {peer : Addr} (h : r.peer = some peer)
    (ackno : UInt32) : r.sendAck ackno = [(peer, ackPacket ackno)] := by
  rw [Receiver.sendAck, h]

theorem Receiver.accept_peer (r : Receiver Addr) (payload : Bytes) :
    (r.accept payload).peer = r.peer := by
  unfold Receiver.accept
  dsimp only
  split <;> rfl

theorem onPacket_peer (r : Receiver Addr) (pkt : ParsedPacket) : (r.onPacket pkt).1.peer = r.peer := by
  unfold Receiver.onPacket
  split
  · split
    · exact r.accept_peer pkt.payload
    · rfl
  · split <;> rfl
  · rfl

theorem take_peer {r : Receiver Addr} {peer : Addr} (h : r.peer = some peer) (d : Addr × Bytes) :
    (r.take d).1.peer = some peer := by
  unfold Receiver.take Receiver.onDatagram
  split
  · exact h
  · split
    · exact h
    · rw [onPacket_peer, Receiver.meet_of_peer h, h]

/-! ## What the receiver does not ignore -/

theorem Receiver.ackAgain_eq_nil {r : Receiver Addr} {peer : Addr} (h : r.peer = some peer) :
    r.ackAgain = [] ↔ r.lastInOrderAck = noDataYet := by
  unfold Receiver.ackAgain
  split
  · rename_i hlast
    simp [Receiver.sendAck_of_peer h, hlast]
  · rename_i hlast
    simp [not_not.mp hlast]

theorem onPacket_idle_iff {r : Receiver Addr} {peer : Addr} (h : r.peer = some peer)
    (pkt : ParsedPacket) :
    ((r.onPacket pkt).2 = [] ↔ pkt.type = .ack ∨ pkt.seq ≠ r.expected ∧ r.lastInOrderAck = noDataYet) ∧
      ((r.onPacket pkt).2 = [] → (r.onPacket pkt).1 = r) := by
  unfold Receiver.onPacket
  cases pkt.type with
  | ack => simp
  | data =>
    by_cases hseq : pkt.seq = r.expected
    · have hpeer : (r.accept pkt.payload).peer = some peer := (r.accept_peer pkt.payload).trans h
      simp [hseq, Receiver.sendAck_of_peer hpeer]
    · simp [hseq, Receiver.ackAgain_eq_nil h]
  | fin =>
    by_cases hseq : pkt.seq = r.expected
    · simp [hseq, Receiver.sendAck_of_peer h]
    · simp [hseq, Receiver.ackAgain_eq_nil h]

theorem take_idle_iff {r : Receiver Addr} {peer : Addr} (h : r.peer = some peer)
    (d : Addr × Bytes) :
    ((r.take d).2 = [] ↔ r.Ignores d.2) ∧ ((r.take d).2 = [] → (r.take d).1 = r) := by
  unfold Receiver.take Receiver.Ignores Receiver.onDatagram
  cases hfin : r.finished with
  | true => simp
  | false =>
    cases hpkt : parsePacket (recvfrom receiverBuf d.2) with
    | none => simp
    | some pkt =>
      obtain ⟨hiff, hsame⟩ := onPacket_idle_iff h pkt
      simp only [Bool.false_eq_true, if_false, false_or, Receiver.meet_of_peer h]
      refine ⟨?_, hsame⟩
      rw [hiff]
      simp

theorem idle_iff_ignores {r : Receiver Addr} {peer : Addr} (h : r.peer = some peer)
    (d : Addr × Bytes) : (receiving Addr).Idle r d ↔ r.Ignores d.2 := by
  obtain ⟨hiff, hsame⟩ := take_idle_iff h d
  rw [← hiff]
  exact ⟨fun hidle => congrArg Prod.snd hidle, fun hnil => Prod.ext (hsame hnil) hnil⟩

/-! ## The theorem -/

variable [DecidableEq Addr]

/-- **Sessions.** At every point of a run, the output file, the ACKs and the end of the loop are what
they are without the datagrams that come from elsewhere, exactly when the receiver ignores each of
these. -/
theorem session_isolated_iff (r : Receiver Addr) (peer : Addr) (hpeer : r.peer = some peer)
    (datagrams : List (Addr × Bytes)) :
    (∀ front, front <+: datagrams →
      let whole := (receiving Addr).run r front
      let own := (receiving Addr).run r (front.filter fun d => d.1 = peer)
      whole.1.out = own.1.out ∧ whole.2 = own.2 ∧ whole.1.finished = own.1.finished) ↔
    ∀ front source datagram, front ++ [(source, datagram)] <+: datagrams → source ≠ peer →
      ((receiving Addr).run r front).1.Ignores datagram := by
  have hkeeps : ∀ (r : Receiver Addr) d, r.peer = some peer → (r.take d).1.peer = some peer :=
    fun _ d h => take_peer h d
  have hknown : ∀ front, ((receiving Addr).run r front).1.peer = some peer :=
    (receiving Addr).run_invariant (I := fun r => r.peer = some peer) hkeeps hpeer
  have hloud : ∀ (r : Receiver Addr) d, r.peer = some peer → ¬(receiving Addr).Idle r d →
      (r.take d).2 ≠ [] :=
    fun r d h hidle hnil => hidle ((idle_iff_ignores h d).mpr ((take_idle_iff h d).1.mp hnil))
  have hsilent := @Machine.silent_iff _ _ _ (receiving Addr) (fun d => decide (d.1 = peer)) r
    (fun r => r.peer = some peer) hkeeps hloud hpeer datagrams
  have hignores : (receiving Addr).Silent (fun d => decide (d.1 = peer)) r datagrams ↔
      ∀ front source datagram, front ++ [(source, datagram)] <+: datagrams → source ≠ peer →
        ((receiving Addr).run r front).1.Ignores datagram := by
    constructor
    · intro h front source datagram hle hsource
      exact (idle_iff_ignores (hknown front) (source, datagram)).mp
        (h front _ hle (decide_eq_false hsource))
    · rintro h front ⟨source, datagram⟩ hle hsource
      exact (idle_iff_ignores (hknown front) (source, datagram)).mpr
        (h front source datagram hle (of_decide_eq_false hsource))
  rw [← hignores]
  constructor
  · intro h
    exact hsilent.mpr fun front hle => (h front hle).2.1.symm
  · intro h front hle
    have hsame := (h.of_prefix hle).run_filter
    dsimp only
    rw [hsame]
    exact ⟨rfl, rfl, rfl⟩

/-- A segment from the peer, and an ACK from elsewhere. -/
theorem stray_ack_isolated :
    let r := (Receiver.fresh : Receiver Bool).meet true
    let datagrams := [(true, buildPacket .data 0 (some [0x61]) 1), (false, ackPacket 7)]
    ∀ front, front <+: datagrams →
      let whole := (receiving Bool).run r front
      let own := (receiving Bool).run r (front.filter fun d => d.1 = true)
      whole.1.out = own.1.out ∧ whole.2 = own.2 ∧ whole.1.finished = own.1.finished := by
  refine (session_isolated_iff _ true rfl _).mpr fun front source datagram hle hsource => ?_
  match front with
  | [] =>
    rw [List.nil_append, List.cons_prefix_cons] at hle
    exact absurd (congrArg Prod.fst hle.1) hsource
  | [_] =>
    rw [List.singleton_append, List.cons_prefix_cons, List.cons_prefix_cons] at hle
    obtain ⟨-, hlast, -⟩ := hle
    obtain ⟨-, rfl⟩ := Prod.mk.inj hlast
    refine Or.inr fun pkt hpkt => Or.inl ?_
    rw [ackPacket, recvfrom, List.take_of_length_le (by decide +kernel), parse_build_empty] at hpkt
    exact (Option.some.inj hpkt) ▸ rfl
  | _ :: _ :: _ =>
    have hlen := hle.length_le
    simp at hlen

/-- A segment from the peer, and the next one from elsewhere. -/
def intrusion : List (Bool × Bytes) :=
  [(true, buildPacket .data 0 (some [0x61]) 1), (false, buildPacket .data 1 (some [0x78]) 1)]

theorem intrusion_written :
    let r := (Receiver.fresh : Receiver Bool).meet true
    let whole := (receiving Bool).run r intrusion
    let own := (receiving Bool).run r (intrusion.filter fun d => d.1 = true)
    whole.1.out = [0x61, 0x78] ∧ own.1.out = [0x61] ∧ whole.2 ≠ own.2 := by
  decide +kernel

end Rdtp
