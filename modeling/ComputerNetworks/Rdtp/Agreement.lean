import ComputerNetworks.Rdtp.Delivery

/-!
# Agreement: the window, the ACKs and the end of a transfer

With no forged datagram at the sender, its window is exact, and the number of
the FIN is acknowledged only by a receiver that holds the whole file.
-/

open Lib Lib.Channel

namespace Rdtp

variable {Addr : Type} {cfg : Config Addr}

/-- Whatever reaches the sender from elsewhere: what `recvfrom` hands over of it, cut to 2048 bytes, is
refused by `parse_packet`. -/
def Config.Quiet (cfg : Config Addr) : Prop :=
  ∀ b, cfg.noise b → parsePacket (recvfrom senderBuf b) = none

/-! ## The window is exact -/

/-- The window holds `base` up to `next_seq`, and is full until the file ends. -/
structure Sender.Exact (cfg : Config Addr) (s : Sender) : Prop where
  window : s.window = cfg.entries s.base.toNat s.nextSeq.toNat
  le : s.base.toNat ≤ s.nextSeq.toNat
  bound : s.window.length ≤ cfg.opt.window.toNat
  full : s.phase = .main → s.eof = true ∨ s.window.length = cfg.opt.window.toNat
  closed : s.closing → s.window = []

theorem fillWindow_exact (hfit : cfg.Fits) {s : Sender} (hr : s.Reads cfg)
    (hw : s.window = cfg.entries s.base.toNat s.nextSeq.toNat)
    (hle : s.base.toNat ≤ s.nextSeq.toNat) (hb : s.window.length ≤ cfg.opt.window.toNat)
    (ho : ¬ s.closing) :
    (fillWindow cfg.opt s []).1.Exact cfg ∧ (fillWindow cfg.opt s []).1.base = s.base ∧
      ((fillWindow cfg.opt s []).1.eof = true ∨
        (fillWindow cfg.opt s []).1.window.length = cfg.opt.window.toNat) := by
  obtain ⟨-, hfill, -⟩ := fillWindow_spec hfit s [] hr
  have hbound := hfill.bound hb
  have hfull := hfill.full.imp_right (le_antisymm hbound)
  refine ⟨⟨?_, ?_, hbound, fun _ => hfull, ?_⟩, hfill.base, hfull⟩
  · rw [hfill.window, hw, hfill.base, entries_append cfg hle hfill.grows]
  · rw [hfill.base]
    exact le_trans hle hfill.grows
  · intro hc
    exact absurd (by simpa [Sender.closing, hfill.phase] using hc) ho

theorem Sender.Exact.inPhase {s : Sender} (h : s.Exact cfg) {phase : Phase}
    (hfull : phase = .main → s.eof = true ∨ s.window.length = cfg.opt.window.toNat)
    (hclosed : phase = .fin ∨ phase = .finished → s.window = []) :
    Sender.Exact cfg { s with phase } :=
  ⟨h.window, h.le, h.bound, hfull, hclosed⟩

theorem Move.alone_exact (hfit : cfg.Fits) {s t : Sender} {sent : List Bytes}
    (h : Move cfg.opt s none t sent) (hs : s.Safe cfg) (he : s.Exact cfg) :
    t.Exact cfg ∧ t.base = s.base ∧ t.phase ≠ .finished := by
  cases h with
  | begin hp =>
    obtain ⟨hx, hbase, hfull⟩ := fillWindow_exact hfit hs.reads he.window he.le he.bound
      (not_closing (Or.inl hp))
    exact ⟨hx.inPhase (fun _ => hfull) (by simp), hbase, by simp⟩
  | timeout hp _ =>
    exact ⟨⟨he.window, he.le, he.bound, he.full, he.closed⟩, rfl, by simp [onTimeout, hp]⟩
  | leave hp hl =>
    have hempty : s.window = [] := by simp [Sender.loops] at hl; exact hl.2
    exact ⟨he.inPhase (by simp) fun _ => hempty, rfl, by simp⟩
  | sendFin hp => exact ⟨he, rfl, by simp [hp]⟩

theorem Move.refused {s t : Sender} {b : Bytes} {sent : List Bytes}
    (h : Move cfg.opt s (some b) t sent) (hb : parsePacket (recvfrom senderBuf b) = none) :
    t = s ∧ sent = [] := by
  cases h with
  | datagram _ _ _ => simp [onDatagram, hb]
  | finDatagram _ _ => simp [onFinDatagram, hb]

theorem Sender.Exact.base_lt {s : Sender} (he : s.Exact cfg) (hp : s.phase = .main)
    (hl : s.loops = true) : s.base.toNat < s.nextSeq.toNat := by
  by_contra hge
  have hempty : s.window = [] := by
    rw [he.window, show s.nextSeq.toNat = s.base.toNat by have := he.le; omega, entries_self]
  have hpos := cfg.opt.window_pos
  simp only [Sender.loops, hempty, List.isEmpty_nil, Bool.not_true, Bool.or_false,
    Bool.not_eq_true'] at hl
  rcases he.full hp with h | h
  · simp [hl] at h
  · simp [hempty] at h
    omega

/-- An ACK in the main loop moves `base` just past its number, or is stale. -/
theorem onDatagram_ack (hfit : cfg.Fits) {s : Sender} (hs : s.Safe cfg) (he : s.Exact cfg)
    (hp : s.phase = .main) (hl : s.loops = true) {a : UInt32} (ha : a.toNat < s.nextSeq.toNat) :
    let t := (onDatagram cfg.opt s (ackPacket a)).1
    t.Exact cfg ∧ t.phase = .main ∧ s.base.toNat ≤ t.base.toNat ∧ a.toNat < t.base.toNat ∧
      (t.base = s.base ∨ t.base.toNat = a.toNat + 1) := by
  have hlt := he.base_lt hp hl
  have hcount := hs.reads.count
  have hcons := entries_cons cfg hlt
  rw [← he.window] at hcons
  have hfront : (cfg.entry s.base.toNat).seq.toNat = s.base.toNat :=
    entry_seq_toNat hfit (by omega)
  simp only [onDatagram, parse_ack_received, ne_eq, not_true_eq_false, if_false, hcons,
    UInt32.le_iff_toNat_le, hfront]
  split
  · -- The window moves to `a + 1` and is filled up again.
    rename_i hle
    have hpop := popAcked_entries hfit a s.base hle ha hcount
    rw [← he.window] at hpop
    have hsucc : (a + 1).toNat = a.toNat + 1 := toNat_succ (by omega) hfit
    have hack : handleAck s a =
        { s with window := cfg.entries (a.toNat + 1) s.nextSeq.toNat, base := a + 1 } := by
      rw [handleAck_eq, hpop]
    obtain ⟨hx, hbase, -⟩ := fillWindow_exact hfit (handleAck_safe hs a).reads
      (by simp only [hack, hsucc]) (by simp only [hack, hsucc]; omega)
      (by have := he.bound; rw [he.window] at this; simp only [hack, entries_length] at *; omega)
      (not_closing (Or.inr hp))
    obtain ⟨-, hfill, -⟩ := fillWindow_spec hfit (handleAck s a) [] (handleAck_safe hs a).reads
    have hbase' : (fillWindow cfg.opt (handleAck s a) []).1.base.toNat = a.toNat + 1 := by
      rw [hbase, hack, hsucc]
    exact ⟨hx, by rw [hfill.phase]; exact hp, by omega, by omega, Or.inr hbase'⟩
  · -- Stale: the number is before the front of the window.
    rename_i hlt'
    exact ⟨he, hp, le_refl _, not_le.mp hlt', Or.inl rfl⟩

/-! ## Both sides together -/

/-- An ACK under way: of a segment that is written, or of the FIN that ended the receiver. -/
def State.ackTrue (cfg : Config Addr) (s : State Addr) (d : Addr × Bytes) : Prop :=
  d.1 = cfg.senderAddr ∧ ∃ a : UInt32, d.2 = ackPacket a ∧
    (a.toNat < s.receiver.expected.toNat ∨ s.receiver.finished = true ∧ a = s.sender.nextSeq)

structure State.Agreed (cfg : Config Addr) (s : State Addr) : Prop where
  exact : s.sender.Exact cfg
  base_le : s.sender.base.toNat ≤ s.receiver.expected.toNat
  toSender : ∀ d ∈ s.toSender, s.ackTrue cfg d
  finished : s.sender.phase = .finished → s.receiver.finished = true
  acksTaken : ∀ a ∈ s.history.acksTaken, a.toNat < s.sender.base.toNat
  dataReplies : ∀ b ∈ s.history.dataReplies,
    ∃ a : UInt32, b = ackPacket a ∧ a.toNat < s.receiver.expected.toNat

theorem fresh_agreed (cfg : Config Addr) : (State.fresh cfg.file : State Addr).Agreed cfg := by
  refine ⟨⟨rfl, le_refl _, Nat.zero_le _, ?_, fun _ => rfl⟩, le_refl _, ?_, ?_, ?_, ?_⟩ <;>
    simp [State.fresh, Sender.fresh]

theorem State.ackTrue.mono {s t : State Addr} {d : Addr × Bytes} (h : s.ackTrue cfg d)
    (hexp : s.receiver.expected.toNat ≤ t.receiver.expected.toNat)
    (hfin : s.receiver.finished = true →
      t.receiver.finished = true ∧ t.sender.nextSeq = s.sender.nextSeq) : t.ackTrue cfg d := by
  obtain ⟨hto, a, hd, ha⟩ := h
  refine ⟨hto, a, hd, ha.imp (fun h => lt_of_lt_of_le h hexp) ?_⟩
  rintro ⟨hf, rfl⟩
  obtain ⟨hf', hn⟩ := hfin hf
  exact ⟨hf', hn.symm⟩

theorem State.Agreed.moved {s : State Addr} (hs : s.Sound cfg) (h : s.Agreed cfg)
    {input : Option Bytes} {t : Sender} {sent : List Bytes} (hlater : s.sender.Later t)
    (hexact : t.Exact cfg) (hbase : t.base.toNat ≤ s.receiver.expected.toNat)
    (hfin : t.phase = .finished → s.receiver.finished = true)
    (htaken : ∀ a ∈ (s.senderMoved cfg input t sent).history.acksTaken,
      a.toNat < t.base.toNat) : (s.senderMoved cfg input t sent).Agreed cfg := by
  refine ⟨hexact, hbase, ?_, hfin, htaken, h.dataReplies⟩
  intro d hd
  refine (h.toSender d hd).mono (le_refl _) fun hf => ⟨hf, ?_⟩
  exact (hlater.closed (hs.receiver.finished hf).1).2

theorem State.Agreed.alone (hfit : cfg.Fits) {s : State Addr} (hs : s.Sound cfg)
    (h : s.Agreed cfg) {t : Sender} {sent : List Bytes} (hm : Move cfg.opt s.sender none t sent) :
    (s.senderMoved cfg none t sent).Agreed cfg := by
  obtain ⟨hexact, hbase, hphase⟩ := hm.alone_exact hfit hs.sender h.exact
  refine h.moved hs (hm.safe hfit hs.sender).2.1 hexact ?_ (fun hf => absurd hf hphase) ?_
  · rw [hbase]; exact h.base_le
  · rw [hbase]; exact h.acksTaken

theorem senderMoved_refused {s : State Addr} {t : Sender} {b : Bytes} {sent : List Bytes}
    (hm : Move cfg.opt s.sender (some b) t sent)
    (hb : parsePacket (recvfrom senderBuf b) = none) : s.senderMoved cfg (some b) t sent = s := by
  obtain ⟨rfl, rfl⟩ := hm.refused hb
  simp [State.senderMoved, ackNumber, hb]

theorem acksTaken_ack (s : State Addr) (t : Sender) (sent : List Bytes) (a : UInt32) :
    (s.senderMoved cfg (some (ackPacket a)) t sent).history.acksTaken =
      if s.sender.phase = .main then a :: s.history.acksTaken else s.history.acksTaken := by
  simp [State.senderMoved, ackNumber, parse_ack_received]

theorem State.Agreed.takes (hfit : cfg.Fits) {s : State Addr} (hs : s.Sound cfg)
    (h : s.Agreed cfg) {t : Sender} {sent : List Bytes} {b : Bytes} {addr : Addr}
    (hb : s.ackTrue cfg (addr, b)) (hm : Move cfg.opt s.sender (some b) t sent) :
    (s.senderMoved cfg (some b) t sent).Agreed cfg := by
  obtain ⟨-, a, hba, ha⟩ := hb
  simp only at hba
  subst hba
  have hlater := (hm.safe hfit hs.sender).2.1
  cases hm with
  | datagram _ hp hl =>
    -- A finished receiver needs a closing sender, so this ACK is of a segment.
    have hwritten : a.toNat < s.receiver.expected.toNat := by
      rcases ha with ha | ⟨hf, -⟩
      · exact ha
      · exact absurd (hs.receiver.finished hf).1 (not_closing (Or.inr hp))
    obtain ⟨hexact, hmain, hmono, hstale, hbase⟩ := onDatagram_ack hfit hs.sender h.exact hp hl
      (lt_of_lt_of_le hwritten hs.receiver.expected)
    refine h.moved hs hlater hexact ?_ (fun hf => by rw [hmain] at hf; cases hf) ?_
    · rcases hbase with hbase | hbase
      · rw [hbase]; exact h.base_le
      · omega
    · rw [acksTaken_ack, if_pos hp]
      intro x hx
      rcases List.mem_cons.mp hx with rfl | hx
      · exact hstale
      · exact lt_of_lt_of_le (h.acksTaken x hx) hmono
  | finDatagram _ hp =>
    rw [onFinDatagram_ack] at hlater ⊢
    have htaken := h.acksTaken
    split at hlater
    · -- The number of the FIN: no segment has it, so the receiver has accepted the FIN.
      rename_i he
      rw [if_pos he]
      have hf : s.receiver.finished = true := by
        rcases ha with ha | ⟨hf, -⟩
        · have := hs.receiver.expected
          rw [he] at ha
          omega
        · exact hf
      refine h.moved hs hlater ?_ h.base_le (fun _ => hf) ?_
      · exact h.exact.inPhase (by simp) fun _ => h.exact.closed (Or.inl hp)
      · rw [acksTaken_ack, hp]; exact htaken
    · -- Any other number leaves the FIN loop as it is.
      rename_i he
      rw [if_neg he]
      refine h.moved hs hlater h.exact h.base_le (fun hf => by rw [hp] at hf; cases hf) ?_
      rw [acksTaken_ack, hp]; exact htaken

theorem State.Agreed.receiverMoved (hfit : cfg.Fits) {s : State Addr} (hs : s.Sound cfg)
    (h : s.Agreed cfg) (hopen : s.receiver.finished = false) {b : Bytes}
    (hb : s.sender.sends cfg b) : (s.receiverMoved cfg.senderAddr b).Agreed cfg := by
  obtain ⟨hsafe, hgrow, hacks⟩ := hs.receiver.onDatagram hfit hs.sender hopen hb
  refine ⟨h.exact, le_trans h.base_le hgrow, ?_, ?_, h.acksTaken, ?_⟩
  · intro d hd
    rcases List.mem_append.mp hd with hd | hd
    · exact (h.toSender d hd).mono hgrow (by simp [hopen])
    · rcases hacks with hacks | ⟨-, hf, hacks⟩
      · obtain ⟨hto, a, hda, ha⟩ := hacks d hd
        exact ⟨hto, a, hda, Or.inl ha⟩
      · obtain ⟨hto, hda⟩ := hacks d hd
        exact ⟨hto, _, hda, Or.inr ⟨hf, rfl⟩⟩
  · intro hf
    simp [h.finished hf] at hopen
  · -- Replies to a segment stay below `expected`; the FIN is no segment.
    intro x hx
    have hold : ∀ x ∈ s.history.dataReplies, ∃ a : UInt32, x = ackPacket a ∧
        a.toNat < (s.receiverMoved cfg.senderAddr b).receiver.expected.toNat := by
      intro x hx
      obtain ⟨a, hxa, ha⟩ := h.dataReplies x hx
      exact ⟨a, hxa, lt_of_lt_of_le ha hgrow⟩
    simp only [State.receiverMoved] at hx
    split at hx
    · rename_i hdata
      rcases List.mem_append.mp hx with hx | hx
      · obtain ⟨d, hd, rfl⟩ := List.mem_map.mp hx
        rcases hacks with hacks | ⟨hnot, -⟩
        · exact (hacks d hd).2
        · simp [hdata] at hnot
      · exact hold x hx
    · exact hold x hx

theorem State.Agreed.fewer {s : State Addr} (h : s.Agreed cfg) {c : List (Addr × Bytes)}
    (hc : ∀ d ∈ c, d ∈ s.toSender) : State.Agreed cfg { s with toSender := c } :=
  ⟨h.exact, h.base_le, fun d hd => h.toSender d (hc d hd), h.finished, h.acksTaken, h.dataReplies⟩

theorem State.Agreed.data {s : State Addr} (h : s.Agreed cfg) (c : List (Addr × Bytes)) :
    State.Agreed cfg { s with toReceiver := c } :=
  ⟨h.exact, h.base_le, h.toSender, h.finished, h.acksTaken, h.dataReplies⟩

theorem State.Agreed.step (hfit : cfg.Fits) (hquiet : cfg.Quiet) {s t : State Addr}
    (hs : s.Sound cfg) (h : s.Agreed cfg) (hst : Step cfg s t) : t.Agreed cfg := by
  cases hst with
  | senderAlone hm => exact h.alone hfit hs hm
  | senderTakes htake hm =>
    exact (h.fewer htake.subset).takes hfit (hs.acks _) (h.toSender _ htake.mem) hm
  | senderNoise hb hm => rw [senderMoved_refused hm (hquiet _ hb)]; exact h
  | receiverTakes hopen htake =>
    obtain ⟨hsrc, hb⟩ := hs.toReceiver _ htake.mem
    subst hsrc
    exact (h.data _).receiverMoved hfit (hs.fewer htake.subset) hopen hb
  | receiverNoise source _ hb => rw [receiverMoved_refused s source hb]; exact h
  | faultToReceiver _ => exact h.data _
  | faultToSender hf => exact h.fewer hf.subset

theorem reachable_agreed (hfit : cfg.Fits) (hquiet : cfg.Quiet) {s : State Addr}
    (h : (transfer cfg).Reachable s) : s.Agreed cfg := by
  refine h.invariant (J := State.Sound cfg) (fun _ => reachable_sound hfit) ?_ ?_
  · rintro s rfl
    exact fresh_agreed cfg
  · intro s t hs _ ha hst
    exact ha.step hfit hquiet hs hst

/-! ## The theorems -/

/-- **Completion agreement.** A sender that is done has a receiver that is done and holds the file.
No ACK that answers a segment ends the FIN loop. -/
theorem completion_agreement (cfg : Config Addr) (hfit : cfg.segmentCount ≤ 2 ^ 32 - 1)
    (hquiet : ∀ b, cfg.noise b → parsePacket (recvfrom senderBuf b) = none) (s : State Addr)
    (h : (transfer cfg).Reachable s) :
    (s.sender.phase = .finished → s.receiver.finished = true ∧ s.receiver.out = cfg.file) ∧
      (s.sender.phase = .fin →
        ∀ b ∈ s.history.dataReplies, onFinDatagram s.sender b = s.sender) := by
  have hs := reachable_sound hfit h
  have ha := reachable_agreed hfit hquiet h
  refine ⟨fun hp => ⟨ha.finished hp, hs.finished_out (ha.finished hp)⟩, fun hp b hb => ?_⟩
  obtain ⟨a, rfl, hlt⟩ := ha.dataReplies b hb
  rw [onFinDatagram_ack, if_neg]
  rintro rfl
  exact absurd hs.receiver.expected (not_le.mpr hlt)

theorem completion_agreement_oneByte :
    ∃ s, (transfer oneByte).Reachable s ∧ s.sender.phase = .finished ∧
      s.receiver.finished = true ∧ s.receiver.out = oneByte.file :=
  ⟨_, oneByte_finished, rfl, (completion_agreement oneByte (by decide) (fun _ h => h.elim) _
    oneByte_finished).1 rfl⟩

/-- **Sliding window.** At the head of the main loop the window is the segments from `base` to
`next_seq - 1`, as they were built. It is full unless the file has ended. All before `base` is
written, and a retransmission carries no segment that an ACK has covered. -/
theorem sliding_window (cfg : Config Addr) (hfit : cfg.segmentCount ≤ 2 ^ 32 - 1)
    (hquiet : ∀ b, cfg.noise b → parsePacket (recvfrom senderBuf b) = none) (s : State Addr)
    (h : (transfer cfg).Reachable s) (hmain : s.sender.phase = .main) :
    let base := s.sender.base.toNat
    let next := s.sender.nextSeq.toNat
    s.sender.window = (List.range' base (next - base)).map cfg.entry ∧
      s.sender.window.length ≤ cfg.opt.window.toNat ∧
      (∀ p ∈ s.sender.window.head?, s.sender.base = p.seq) ∧
      (s.sender.window = [] → s.sender.base = s.sender.nextSeq) ∧
      (s.sender.eof = true ∨ s.sender.window.length = cfg.opt.window.toNat) ∧
      base ≤ s.receiver.expected.toNat ∧ s.receiver.expected.toNat ≤ next ∧
      cfg.prefixOf base <+: s.receiver.out ∧
      (∀ b ∈ (onTimeout s.sender).2, ∃ k, base ≤ k ∧ k < next ∧ b = (cfg.entry k).bytes ∧
        ∀ a ∈ s.history.acksTaken, a.toNat < k) := by
  intro base next
  have hs := reachable_sound hfit h
  have ha := reachable_agreed hfit hquiet h
  have hexact := ha.exact
  have hcount := hs.sender.reads.count
  refine ⟨hexact.window, hexact.bound, ?_, ?_, hexact.full hmain, ha.base_le,
    hs.receiver.expected, ?_, ?_⟩
  · intro p hp
    have hlt : base < next := by
      by_contra hge
      rw [hexact.window, Config.entries, Nat.sub_eq_zero_of_le (not_lt.mp hge)] at hp
      simp at hp
    rw [hexact.window, entries_cons cfg hlt] at hp
    simp only [List.head?_cons, Option.mem_def, Option.some.injEq] at hp
    rw [← hp, ← UInt32.toNat_inj, entry_seq_toNat hfit (by omega)]
  · intro hempty
    have hlen := congrArg List.length hempty
    rw [hexact.window, entries_length, List.length_nil] at hlen
    have := hexact.le
    exact UInt32.toNat_inj.mp (by omega)
  · rw [hs.receiver.out]
    have hb : ∀ n, cfg.prefixOf n = cfg.file.take (n * cfg.opt.mss.toNat) :=
      Chunks.joined_eq_take cfg.file
    rw [hb, hb]
    exact List.take_prefix_take_left (Nat.mul_le_mul_right _ ha.base_le)
  · intro b hb
    obtain ⟨p, hp, rfl⟩ := List.mem_map.mp hb
    rw [hexact.window] at hp
    obtain ⟨k, hk, hkn, rfl⟩ := (mem_entries cfg).mp hp
    exact ⟨k, hk, hkn, rfl, fun a hat => lt_of_lt_of_le (ha.acksTaken a hat) hk⟩

theorem sliding_window_oneByte :
    oneByteSent.window = [oneByte.entry 0] ∧
      oneByteSent.window.length ≤ oneByte.opt.window.toNat := by
  have h := sliding_window oneByte (by decide) (fun _ h => h.elim) _ oneByte_reachable rfl
  exact ⟨h.1, h.2.1⟩

end Rdtp
