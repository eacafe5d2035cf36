import ComputerNetworks.Rdtp.Window

/-!
# What the receiver writes is a prefix of the file

The invariant here says nothing about ACKs: whatever reaches the sender, it only
ever sends the segments of its file, each under its own number.
-/

open Lib Lib.Channel

namespace Rdtp

variable {Addr : Type} {cfg : Config Addr}

/-! ## The sender -/

def Sender.closing (s : Sender) : Prop := s.phase = .fin ∨ s.phase = .finished

/-- A datagram the sender may have sent by now: a segment, or the FIN. -/
def Sender.sends (cfg : Config Addr) (s : Sender) (b : Bytes) : Prop :=
  (∃ k < s.nextSeq.toNat, b = (cfg.entry k).bytes) ∨ s.closing ∧ b = finPacket s

/-- The sender holds nothing but segments of the file. -/
structure Sender.Safe (cfg : Config Addr) (s : Sender) : Prop where
  reads : s.Reads cfg
  window : ∀ p ∈ s.window, ∃ k < s.nextSeq.toNat, p = cfg.entry k
  eof : s.closing → s.eof = true

/-- How a sender may change: it counts up, until it starts to close. -/
structure Sender.Later (s t : Sender) : Prop where
  grows : s.nextSeq.toNat ≤ t.nextSeq.toNat
  closed : s.closing → t.closing ∧ t.nextSeq = s.nextSeq

theorem Sender.Later.refl (s : Sender) : s.Later s := ⟨le_refl _, fun h => ⟨h, rfl⟩⟩

theorem Sender.sends_later {s t : Sender} (h : s.Later t) {b : Bytes} (hb : s.sends cfg b) :
    t.sends cfg b := by
  rcases hb with ⟨k, hk, rfl⟩ | ⟨hc, rfl⟩
  · exact Or.inl ⟨k, lt_of_lt_of_le hk h.grows, rfl⟩
  · obtain ⟨hc', hn⟩ := h.closed hc
    exact Or.inr ⟨hc', by rw [finPacket, finPacket, hn]⟩

theorem not_closing {s : Sender} (h : s.phase = .start ∨ s.phase = .main) : ¬ s.closing := by
  rcases h with h | h <;> simp [Sender.closing, h]

theorem fillWindow_safe (hfit : cfg.Fits) {s : Sender} (hs : s.Safe cfg) (ho : ¬ s.closing) :
    (fillWindow cfg.opt s []).1.Safe cfg ∧
      s.nextSeq.toNat ≤ (fillWindow cfg.opt s []).1.nextSeq.toNat ∧
      ∀ b ∈ (fillWindow cfg.opt s []).2,
        ∃ k < (fillWindow cfg.opt s []).1.nextSeq.toNat, b = (cfg.entry k).bytes := by
  obtain ⟨hreads, hfill, hsent⟩ := fillWindow_spec hfit s [] hs.reads
  refine ⟨⟨hreads, ?_, ?_⟩, hfill.grows, ?_⟩
  · intro p hp
    rw [hfill.window, List.mem_append] at hp
    rcases hp with hp | hp
    · obtain ⟨k, hk, rfl⟩ := hs.window p hp
      exact ⟨k, lt_of_lt_of_le hk hfill.grows, rfl⟩
    · obtain ⟨k, -, hk, rfl⟩ := (mem_entries cfg).mp hp
      exact ⟨k, hk, rfl⟩
  · intro hc
    exact absurd (by simpa [Sender.closing, hfill.phase] using hc) ho
  · intro b hb
    rw [hsent, List.nil_append, List.mem_map] at hb
    obtain ⟨p, hp, rfl⟩ := hb
    obtain ⟨k, -, hk, rfl⟩ := (mem_entries cfg).mp hp
    exact ⟨k, hk, rfl⟩

theorem handleAck_eq (s : Sender) (ackno : UInt32) :
    handleAck s ackno =
      { s with
        window := (popAcked ackno s.window s.base).1
        base := (popAcked ackno s.window s.base).2 } := rfl

theorem handleAck_safe {s : Sender} (hs : s.Safe cfg) (ackno : UInt32) :
    (handleAck s ackno).Safe cfg :=
  ⟨⟨hs.reads.count, hs.reads.unread, hs.reads.eof⟩,
    fun p hp => hs.window p (popAcked_subset ackno s.window s.base p hp), hs.eof⟩

theorem onDatagram_cases (opt : Options) (s : Sender) (b : Bytes) :
    onDatagram opt s b = (s, []) ∨
      ∃ pkt front window, parsePacket (recvfrom senderBuf b) = some pkt ∧ pkt.type = .ack ∧
        s.window = front :: window ∧ front.seq ≤ pkt.seq ∧
        onDatagram opt s b = fillWindow opt (handleAck s pkt.seq) [] := by
  unfold onDatagram
  split
  · exact Or.inl rfl
  · rename_i pkt hpkt
    split_ifs with hack
    · exact Or.inl rfl
    · split
      · exact Or.inl rfl
      · rename_i front window hw
        split_ifs with hle
        · exact Or.inr ⟨pkt, front, window, hpkt, not_not.mp hack, hw, hle, rfl⟩
        · exact Or.inl rfl

theorem onFinDatagram_cases (s : Sender) (b : Bytes) :
    onFinDatagram s b = s ∨
      ∃ pkt, parsePacket (recvfrom senderBuf b) = some pkt ∧ pkt.type = .ack ∧
        pkt.seq = s.nextSeq ∧ onFinDatagram s b = { s with phase := .finished } := by
  unfold onFinDatagram
  split
  · exact Or.inl rfl
  · rename_i pkt hpkt
    split_ifs with h
    · exact Or.inr ⟨pkt, hpkt, h.1, h.2, rfl⟩
    · exact Or.inl rfl

/-- What a sender holds does not depend on the phase, except that only the end of the file lets it
close. -/
theorem Sender.Safe.inPhase {s : Sender} (h : s.Safe cfg) {phase : Phase}
    (heof : phase = .fin ∨ phase = .finished → s.eof = true) :
    Sender.Safe cfg { s with phase } :=
  ⟨⟨h.reads.count, h.reads.unread, h.reads.eof⟩, h.window, heof⟩

theorem Move.safe (hfit : cfg.Fits) {s t : Sender} {input : Option Bytes} {sent : List Bytes}
    (h : Move cfg.opt s input t sent) (hs : s.Safe cfg) :
    t.Safe cfg ∧ s.Later t ∧ ∀ b ∈ sent, t.sends cfg b := by
  cases h with
  | begin hp =>
    have ho := not_closing (Or.inl hp)
    obtain ⟨hsafe, hgrow, hsent⟩ := fillWindow_safe hfit hs ho
    exact ⟨hsafe.inPhase (by simp), ⟨hgrow, fun hc => absurd hc ho⟩,
      fun b hb => Or.inl (hsent b hb)⟩
  | timeout hp _ =>
    refine ⟨⟨⟨hs.reads.count, hs.reads.unread, hs.reads.eof⟩, hs.window, hs.eof⟩,
      ⟨le_refl _, fun hc => ⟨hc, rfl⟩⟩, ?_⟩
    -- The whole window goes out again, so what is sent was sent before.
    intro b hb
    obtain ⟨p, hp, rfl⟩ := List.mem_map.mp hb
    obtain ⟨k, hk, rfl⟩ := hs.window p hp
    exact Or.inl ⟨k, hk, rfl⟩
  | datagram b hp _ =>
    have ho := not_closing (Or.inr hp)
    rcases onDatagram_cases cfg.opt s b with he | ⟨pkt, front, window, -, -, -, -, he⟩ <;> rw [he]
    · exact ⟨hs, .refl s, by simp⟩
    · obtain ⟨hsafe, hgrow, hsent⟩ := fillWindow_safe hfit (handleAck_safe hs pkt.seq) ho
      exact ⟨hsafe, ⟨hgrow, fun hc => absurd hc ho⟩, fun b hb => Or.inl (hsent b hb)⟩
  | leave hp hl =>
    have heof : s.eof = true := by simp [Sender.loops] at hl; exact hl.1
    exact ⟨hs.inPhase fun _ => heof,
      ⟨le_refl _, fun hc => absurd hc (not_closing (Or.inr hp))⟩, by simp⟩
  | sendFin hp =>
    refine ⟨hs, .refl s, ?_⟩
    rintro b hb
    exact Or.inr ⟨Or.inl hp, List.mem_singleton.mp hb⟩
  | finDatagram b hp =>
    rcases onFinDatagram_cases s b with he | ⟨pkt, -, -, -, he⟩ <;> rw [he]
    · exact ⟨hs, .refl s, by simp⟩
    · exact ⟨hs.inPhase fun _ => hs.eof (Or.inl hp), ⟨le_refl _, fun _ => ⟨Or.inr rfl, rfl⟩⟩,
        by simp⟩

/-! ## Datagrams as they arrive -/

theorem buildPacket_length (type : PacketType) (seq : UInt32) (payload : Bytes)
    (h : payload.length ≤ 65535) :
    (buildPacket type seq (some payload) (UInt16.ofNat payload.length)).length =
      20 + payload.length := by
  rw [buildPacket_eq _ _ _ _ (length_ofNat payload h), List.length_append, header_length, kHeaderSize]

theorem recvfrom_of_le {cap : Nat} {b : Bytes} (h : b.length ≤ cap) : recvfrom cap b = b :=
  List.take_of_length_le h

theorem parse_entry_received (cfg : Config Addr) (k : Nat) :
    parsePacket (recvfrom receiverBuf (cfg.entry k).bytes) =
      some ⟨.data, UInt32.ofNat k, cfg.segment k⟩ := by
  rw [recvfrom_of_le, parse_entry]
  have hlen := buildPacket_length .data (UInt32.ofNat k) _ (segment_length_le cfg k)
  have hseg : (cfg.segment k).length ≤ cfg.opt.mss.toNat := by
    rw [Config.segment, Chunks.chunk_length]; omega
  have := cfg.opt.mss_le
  simp only [Config.entry, dataInFlight, hlen, receiverBuf]
  omega

theorem control_length (type : PacketType) (seq : UInt32) :
    (buildPacket type seq none 0).length = 20 := by
  rw [buildPacket_empty]
  exact buildPacket_length type seq [] (by simp)

theorem parse_control_received (type : PacketType) (seq : UInt32) {cap : Nat} (hcap : 20 ≤ cap) :
    parsePacket (recvfrom cap (buildPacket type seq none 0)) = some ⟨type, seq, []⟩ := by
  rw [recvfrom_of_le (by rw [control_length]; exact hcap), parse_build_empty]

theorem parse_ack_received (a : UInt32) :
    parsePacket (recvfrom senderBuf (ackPacket a)) = some ⟨.ack, a, []⟩ :=
  parse_control_received .ack a (by decide)

theorem onFinDatagram_ack (s : Sender) (a : UInt32) :
    onFinDatagram s (ackPacket a) =
      if a = s.nextSeq then { s with phase := .finished } else s := by
  simp [onFinDatagram, parse_ack_received]

/-! ## The receiver -/

@[simp] theorem meet_expected (r : Receiver Addr) (a : Addr) :
    (r.meet a).expected = r.expected := by
  unfold Receiver.meet; split <;> rfl
@[simp] theorem meet_out (r : Receiver Addr) (a : Addr) : (r.meet a).out = r.out := by
  unfold Receiver.meet; split <;> rfl
@[simp] theorem meet_lastInOrderAck (r : Receiver Addr) (a : Addr) :
    (r.meet a).lastInOrderAck = r.lastInOrderAck := by
  unfold Receiver.meet; split <;> rfl
@[simp] theorem meet_finished (r : Receiver Addr) (a : Addr) :
    (r.meet a).finished = r.finished := by
  unfold Receiver.meet; split <;> rfl

@[simp] theorem accept_out (r : Receiver Addr) (payload : Bytes) :
    (r.accept payload).out = r.out ++ payload := by
  unfold Receiver.accept
  by_cases h : payload = [] <;> simp [h]
@[simp] theorem accept_expected (r : Receiver Addr) (payload : Bytes) :
    (r.accept payload).expected = r.expected + 1 := by
  unfold Receiver.accept; split <;> rfl
@[simp] theorem accept_lastInOrderAck (r : Receiver Addr) (payload : Bytes) :
    (r.accept payload).lastInOrderAck = r.expected := by
  unfold Receiver.accept; split <;> rfl
@[simp] theorem accept_peer (r : Receiver Addr) (payload : Bytes) :
    (r.accept payload).peer = r.peer := by
  unfold Receiver.accept; split <;> rfl
@[simp] theorem accept_finished (r : Receiver Addr) (payload : Bytes) :
    (r.accept payload).finished = r.finished := by
  unfold Receiver.accept; split <;> rfl

/-- The receiver against a sender in state `s`. -/
structure Receiver.Safe (cfg : Config Addr) (s : Sender) (r : Receiver Addr) : Prop where
  expected : r.expected.toNat ≤ s.nextSeq.toNat
  out : r.out = cfg.prefixOf r.expected.toNat
  /-- At the start this is 0 - 1, the number that stands for no data. -/
  lastAck : r.lastInOrderAck = r.expected - 1
  peer : ∀ a ∈ r.peer, a = cfg.senderAddr
  finished : r.finished = true → s.closing ∧ r.expected = s.nextSeq

theorem Receiver.Safe.later {s t : Sender} {r : Receiver Addr} (h : r.Safe cfg s)
    (hst : s.Later t) : r.Safe cfg t := by
  refine ⟨le_trans h.expected hst.grows, h.out, h.lastAck, h.peer, fun hf => ?_⟩
  obtain ⟨hc, he⟩ := h.finished hf
  obtain ⟨hc', hn⟩ := hst.closed hc
  exact ⟨hc', by rw [he, hn]⟩

theorem Receiver.Safe.meet {s : Sender} {r : Receiver Addr} (h : r.Safe cfg s) :
    (r.meet cfg.senderAddr).Safe cfg s := by
  refine ⟨by simpa using h.expected, by simpa using h.out, by simpa using h.lastAck, ?_,
    by simpa using h.finished⟩
  intro a ha
  unfold Receiver.meet at ha
  split at ha
  · exact (Option.some.inj ha).symm
  · exact h.peer a ha

/-- An ACK that is answered to a segment, or to a packet out of order: of something written. -/
def Receiver.acksWritten (cfg : Config Addr) (r : Receiver Addr) (d : Addr × Bytes) : Prop :=
  d.1 = cfg.senderAddr ∧ ∃ a : UInt32, d.2 = ackPacket a ∧ a.toNat < r.expected.toNat

theorem Receiver.Safe.sendAck {s : Sender} {r : Receiver Addr} (h : r.Safe cfg s) (a : UInt32) :
    ∀ d ∈ r.sendAck a, d.1 = cfg.senderAddr ∧ d.2 = ackPacket a := by
  intro d hd
  unfold Receiver.sendAck at hd
  split at hd
  · simp at hd
  · rename_i addr hpeer
    rw [List.mem_singleton.mp hd]
    exact ⟨h.peer addr (by simp [hpeer]), rfl⟩

theorem toNat_pred {e : UInt32} (h : 0 < e.toNat) : (e - 1).toNat = e.toNat - 1 := by
  have hlt := e.toNat_lt
  have hsub : (e - 1).toNat = (2 ^ 32 - 1 + e.toNat) % 2 ^ 32 := UInt32.toNat_sub e 1
  omega

theorem Receiver.Safe.ackAgain {s : Sender} {r : Receiver Addr} (h : r.Safe cfg s) :
    ∀ d ∈ r.ackAgain, r.acksWritten cfg d := by
  intro d hd
  unfold Receiver.ackAgain at hd
  split at hd
  · rename_i hne
    obtain ⟨hto, hack⟩ := h.sendAck _ d hd
    rw [h.lastAck] at hne hack
    have hpos : 0 < r.expected.toNat := by
      by_contra hzero
      have he : r.expected = 0 := UInt32.toNat_inj.mp (Nat.eq_zero_of_not_pos hzero)
      exact hne (by rw [he]; rfl)
    refine ⟨hto, _, hack, ?_⟩
    rw [toNat_pred hpos]
    omega
  · simp at hd

theorem Receiver.Safe.accept (hfit : cfg.Fits) {s : Sender} {r : Receiver Addr} (hs : s.Safe cfg)
    (h : r.Safe cfg s) (hopen : r.finished = false) (hlt : r.expected.toNat < s.nextSeq.toNat) :
    (r.accept (cfg.segment r.expected.toNat)).Safe cfg s ∧
      (r.accept (cfg.segment r.expected.toNat)).expected.toNat = r.expected.toNat + 1 := by
  have hsucc : (r.expected + 1).toNat = r.expected.toNat + 1 :=
    toNat_succ (lt_of_lt_of_le hlt hs.reads.count) hfit
  refine ⟨⟨?_, ?_, ?_, ?_, ?_⟩, by rw [accept_expected, hsucc]⟩
  · rw [accept_expected, hsucc]; omega
  · rw [accept_expected, hsucc, accept_out, h.out, prefixOf_succ]
  · rw [accept_expected, accept_lastInOrderAck, UInt32.add_sub_cancel]
  · simpa using h.peer
  · simp [hopen]

/-- Everything the receiver may answer to what the sender may send. -/
structure Answer (cfg : Config Addr) (s : Sender) (b : Bytes) (r t : Receiver Addr)
    (acks : List (Addr × Bytes)) : Prop where
  safe : t.Safe cfg s
  grows : r.expected.toNat ≤ t.expected.toNat
  acks : (∀ d ∈ acks, t.acksWritten cfg d) ∨
    isData b = false ∧ t.finished = true ∧
      ∀ d ∈ acks, d.1 = cfg.senderAddr ∧ d.2 = ackPacket s.nextSeq

theorem Receiver.Safe.answer_segment (hfit : cfg.Fits) {s : Sender} {r : Receiver Addr}
    (hs : s.Safe cfg) (h : r.Safe cfg s) (hopen : r.finished = false) {k : Nat}
    (hk : k < s.nextSeq.toNat) (b : Bytes) :
    Answer cfg s b r (r.onPacket ⟨.data, UInt32.ofNat k, cfg.segment k⟩).1
      (r.onPacket ⟨.data, UInt32.ofNat k, cfg.segment k⟩).2 := by
  have hkn : (UInt32.ofNat k).toNat = k :=
    entry_seq_toNat hfit (lt_of_lt_of_le hk hs.reads.count)
  simp only [Receiver.onPacket]
  split
  · -- In order: the segment is written and acknowledged.
    rename_i he
    have hek : r.expected.toNat = k := by rw [← he, hkn]
    obtain ⟨hsafe, hexp⟩ := h.accept hfit hs hopen (by omega)
    rw [hek] at hsafe hexp
    refine ⟨hsafe, by simp only [hexp]; omega, Or.inl ?_⟩
    intro d hd
    obtain ⟨hto, hack⟩ := hsafe.sendAck _ d hd
    exact ⟨hto, _, hack, by rw [accept_lastInOrderAck, hexp]; omega⟩
  · exact ⟨h, le_refl _, Or.inl h.ackAgain⟩

theorem Receiver.Safe.answer_fin {s : Sender} {r : Receiver Addr} (h : r.Safe cfg s)
    (hc : s.closing) {b : Bytes} (hb : isData b = false) :
    Answer cfg s b r (r.onPacket ⟨.fin, s.nextSeq, []⟩).1 (r.onPacket ⟨.fin, s.nextSeq, []⟩).2 := by
  simp only [Receiver.onPacket]
  split
  · -- All segments are there: the receiver leaves its loop.
    rename_i he
    exact ⟨⟨h.expected, h.out, h.lastAck, h.peer, fun _ => ⟨hc, he.symm⟩⟩, le_refl _,
      Or.inr ⟨hb, rfl, h.sendAck _⟩⟩
  · exact ⟨h, le_refl _, Or.inl h.ackAgain⟩

theorem Receiver.Safe.onDatagram (hfit : cfg.Fits) {s : Sender} {r : Receiver Addr}
    (hs : s.Safe cfg) (h : r.Safe cfg s) (hopen : r.finished = false) {b : Bytes}
    (hb : s.sends cfg b) :
    Answer cfg s b r (r.onDatagram cfg.senderAddr b).1 (r.onDatagram cfg.senderAddr b).2 := by
  have hmeet := h.meet
  have hopen' : (r.meet cfg.senderAddr).finished = false := by simpa using hopen
  -- A datagram of the sender is a segment or the FIN.
  rcases hb with ⟨k, hk, rfl⟩ | ⟨hc, rfl⟩
  · obtain ⟨hsafe, hgrow, hacks⟩ := hmeet.answer_segment hfit hs hopen' hk (cfg.entry k).bytes
    simp only [Receiver.onDatagram, parse_entry_received]
    exact ⟨hsafe, by simpa using hgrow, hacks⟩
  · have hparse := parse_control_received .fin s.nextSeq (show 20 ≤ receiverBuf by decide)
    have hdata : isData (finPacket s) = false := by simp [isData, finPacket, hparse]
    obtain ⟨hsafe, hgrow, hacks⟩ := hmeet.answer_fin hc hdata
    simp only [Receiver.onDatagram, finPacket, hparse]
    exact ⟨hsafe, by simpa using hgrow, hacks⟩

end Rdtp
