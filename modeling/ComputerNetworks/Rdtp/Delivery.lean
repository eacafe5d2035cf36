import ComputerNetworks.Rdtp.Safety

/-! # Delivery: whatever the network does, the output is a prefix of the file -/

open Lib Lib.Channel

namespace Rdtp

variable {Addr : Type} {cfg : Config Addr}

/-- Both sides are safe, and only the sender's own datagrams are under way to the receiver. -/
structure State.Sound (cfg : Config Addr) (s : State Addr) : Prop where
  sender : s.sender.Safe cfg
  receiver : s.receiver.Safe cfg s.sender
  toReceiver : ∀ d ∈ s.toReceiver, d.1 = cfg.senderAddr ∧ s.sender.sends cfg d.2

theorem fresh_sound (cfg : Config Addr) : (State.fresh cfg.file : State Addr).Sound cfg := by
  refine ⟨⟨⟨Nat.zero_le _, ?_, by simp [State.fresh, Sender.fresh]⟩, by simp [State.fresh,
    Sender.fresh], by simp [State.fresh, Sender.fresh, Sender.closing]⟩, ⟨Nat.zero_le _, rfl, rfl,
    by simp [State.fresh, Receiver.fresh], by simp [State.fresh, Receiver.fresh]⟩,
    by simp [State.fresh]⟩
  simp [State.fresh, Sender.fresh]

theorem State.Sound.senderMoved (hfit : cfg.Fits) {s : State Addr} (h : s.Sound cfg)
    {input : Option Bytes} {t : Sender} {sent : List Bytes}
    (hm : Move cfg.opt s.sender input t sent) : (s.senderMoved cfg input t sent).Sound cfg := by
  obtain ⟨hsafe, hlater, hsent⟩ := hm.safe hfit h.sender
  refine ⟨hsafe, h.receiver.later hlater, ?_⟩
  intro d hd
  simp only [State.senderMoved, List.mem_append, List.mem_map] at hd
  rcases hd with hd | ⟨b, hb, rfl⟩
  · exact ⟨(h.toReceiver d hd).1, Sender.sends_later hlater (h.toReceiver d hd).2⟩
  · exact ⟨rfl, hsent b hb⟩

theorem State.Sound.receiverMoved (hfit : cfg.Fits) {s : State Addr} (h : s.Sound cfg)
    (hopen : s.receiver.finished = false) {b : Bytes} (hb : s.sender.sends cfg b) :
    (s.receiverMoved cfg.senderAddr b).Sound cfg :=
  ⟨h.sender, (h.receiver.onDatagram hfit h.sender hopen hb).safe, h.toReceiver⟩

theorem State.Sound.fewer {s : State Addr} (h : s.Sound cfg) {c : List (Addr × Bytes)}
    (hc : ∀ d ∈ c, d ∈ s.toReceiver) : State.Sound cfg { s with toReceiver := c } :=
  ⟨h.sender, h.receiver, fun d hd => h.toReceiver d (hc d hd)⟩

theorem State.Sound.acks {s : State Addr} (h : s.Sound cfg) (c : List (Addr × Bytes)) :
    State.Sound cfg { s with toSender := c } :=
  ⟨h.sender, h.receiver, h.toReceiver⟩

theorem receiverMoved_refused (s : State Addr) (source : Addr) {b : Bytes}
    (hb : parsePacket (recvfrom receiverBuf b) = none) : s.receiverMoved source b = s := by
  simp [State.receiverMoved, Receiver.onDatagram, isData, hb]

theorem State.Sound.step (hfit : cfg.Fits) {s t : State Addr} (h : s.Sound cfg)
    (hs : Step cfg s t) : t.Sound cfg := by
  cases hs with
  | senderAlone hm => exact h.senderMoved hfit hm
  | senderTakes _ hm => exact (h.acks _).senderMoved hfit hm
  | senderNoise _ hm => exact h.senderMoved hfit hm
  | receiverTakes hopen htake =>
    obtain ⟨hsrc, hb⟩ := h.toReceiver _ htake.mem
    subst hsrc
    exact (h.fewer htake.subset).receiverMoved hfit hopen hb
  | receiverNoise source _ hb => rw [receiverMoved_refused s source hb]; exact h
  | faultToReceiver hf => exact h.fewer hf.subset
  | faultToSender _ => exact h.acks _

theorem reachable_sound (hfit : cfg.Fits) {s : State Addr} (h : (transfer cfg).Reachable s) :
    s.Sound cfg := by
  refine h.invariant (J := fun _ => True) (fun _ _ => trivial) ?_ ?_
  · rintro s rfl
    exact fresh_sound cfg
  · intro s t _ _ hs hst
    exact hs.step hfit hst

theorem State.Sound.closing_count {s : State Addr} (h : s.Sound cfg) (hc : s.sender.closing) :
    s.sender.nextSeq.toNat = cfg.segmentCount :=
  h.sender.reads.eof (h.sender.eof hc)

theorem State.Sound.finished_out {s : State Addr} (h : s.Sound cfg)
    (hf : s.receiver.finished = true) : s.receiver.out = cfg.file := by
  obtain ⟨hc, he⟩ := h.receiver.finished hf
  rw [h.receiver.out, he, h.closing_count hc, prefixOf_all]

theorem prefixOf_prefix (cfg : Config Addr) (n : Nat) : cfg.prefixOf n <+: cfg.file := by
  have h : cfg.prefixOf n = cfg.file.take (n * cfg.opt.mss.toNat) :=
    Chunks.joined_eq_take cfg.file n
  rw [h]
  exact List.take_prefix _ _

/-! ## One byte, from start to finish -/

/-- A transfer of one byte over a network without noise. -/
def oneByte : Config Unit :=
  { opt := ⟨1000, 64, 200, by decide, by decide, by decide, by decide⟩
    file := [7], senderAddr := (), noise := fun _ => False }

def oneByteSent : Sender :=
  { phase := .main, unread := [], window := [oneByte.entry 0], base := 0, nextSeq := 1, eof := true,
    totalSentPayload := 1, retransmits := 0 }

theorem oneByte_begin :
    Move oneByte.opt (.fresh oneByte.file) none oneByteSent [(oneByte.entry 0).bytes] := by
  have h := @Move.begin oneByte.opt (.fresh oneByte.file) rfl
  rw [fillWindow, if_pos (by decide), if_neg (by decide), fillWindow, if_pos (by decide),
    if_pos (by decide)] at h
  exact h

theorem oneByte_reachable :
    (transfer oneByte).Reachable
      { sender := oneByteSent, receiver := .fresh, toReceiver := [((), (oneByte.entry 0).bytes)],
        toSender := [], history := ⟨[], []⟩ } :=
  .step (.init rfl) (@Step.senderAlone _ oneByte (.fresh oneByte.file) _ _ oneByte_begin)

theorem oneByte_delivered :
    (transfer oneByte).Reachable
      { sender := oneByteSent
        receiver := ⟨1, 0, some (), [7], 1, false⟩
        toReceiver := [], toSender := [((), ackPacket 0)], history := ⟨[], [ackPacket 0]⟩ } := by
  have h := oneByte_reachable.step (.receiverTakes rfl (takes_head _ _))
  simp only [State.receiverMoved, Receiver.onDatagram, isData, parse_entry_received] at h
  exact h

/-- The sender once its one segment is acknowledged, in the phase given. -/
def oneByteAcked (phase : Phase) : Sender :=
  { oneByteSent with phase, window := [], base := 1 }

theorem oneByte_onDatagram :
    onDatagram oneByte.opt oneByteSent (ackPacket 0) = (oneByteAcked .main, []) := by
  have h0 : (oneByte.entry 0).seq ≤ 0 := by decide
  simp only [onDatagram, parse_ack_received, oneByteSent, handleAck, popAcked]
  rw [fillWindow, if_neg (by decide)]
  simp [h0, oneByteAcked, oneByteSent]

theorem oneByte_closing :
    (transfer oneByte).Reachable
      { sender := oneByteAcked .fin
        receiver := ⟨1, 0, some (), [7], 1, false⟩
        toReceiver := [((), finPacket (oneByteAcked .fin))], toSender := []
        history := ⟨[0], [ackPacket 0]⟩ } := by
  have h1 := oneByte_delivered.step (.senderTakes (takes_head _ _) (.datagram _ rfl (by decide)))
  rw [oneByte_onDatagram] at h1
  have h2 := h1.step (.senderAlone (.leave rfl rfl))
  have h3 := h2.step (.senderAlone (.sendFin rfl))
  simp only [State.senderMoved, ackNumber, parse_ack_received] at h3
  exact h3

theorem oneByte_finished :
    (transfer oneByte).Reachable
      { sender := oneByteAcked .finished
        receiver := ⟨1, 0, some (), [7], 1, true⟩
        toReceiver := [], toSender := []
        history := ⟨[0], [ackPacket 0]⟩ } := by
  have hfin : parsePacket (recvfrom receiverBuf (finPacket (oneByteAcked .fin))) =
      some ⟨.fin, 1, []⟩ := parse_control_received .fin 1 (by decide)
  have h1 := oneByte_closing.step (.receiverTakes rfl (takes_head _ _))
  simp only [State.receiverMoved, Receiver.onDatagram, isData, hfin] at h1
  have h2 := h1.step (.senderTakes (takes_head _ _) (.finDatagram _ rfl))
  rw [onFinDatagram_ack] at h2
  simp only [State.senderMoved] at h2
  exact h2

/-! ## The theorem -/

/-- **Delivery safety.** The output is the first `expected` segments of the file, and the whole file
once a FIN was accepted. Nothing is asked of the datagrams that reach the sender. -/
theorem delivery_safety (cfg : Config Addr) (hfit : cfg.segmentCount ≤ 2 ^ 32 - 1)
    (s : State Addr) (h : (transfer cfg).Reachable s) :
    s.receiver.out = ((List.range s.receiver.expected.toNat).map cfg.segment).flatten ∧
      s.receiver.expected.toNat ≤ cfg.segmentCount ∧
      s.receiver.out <+: cfg.file ∧
      (s.receiver.finished = true → s.receiver.out = cfg.file) := by
  have hs := reachable_sound hfit h
  have hle := le_trans hs.receiver.expected hs.sender.reads.count
  refine ⟨hs.receiver.out, hle, ?_, hs.finished_out⟩
  rw [hs.receiver.out]
  exact prefixOf_prefix cfg _

theorem delivery_safety_oneByte :
    ∃ s, (transfer oneByte).Reachable s ∧ s.receiver.finished = true ∧
      s.receiver.out = oneByte.file :=
  ⟨_, oneByte_finished, rfl, (delivery_safety oneByte (by decide) _ oneByte_finished).2.2.2 rfl⟩

end Rdtp
