import ComputerNetworks.Rdtp.Delivery

/-!
# What the sender counts

`total_sent_payload` and `retransmits` against all that was handed to `sendto`.
-/

open Lib

namespace Rdtp

variable {Addr : Type}

/-- The sender alone, with all that it has sent. Anything may come to its socket. -/
def sending (cfg : Config Addr) : System (Sender × List Bytes) where
  init s := s = (.fresh cfg.file, [])
  step s t := ∃ input sent, Move cfg.opt s.1 input t.1 sent ∧ t.2 = s.2 ++ sent

/-- The DATA packets among some datagrams. -/
def dataCount (log : List Bytes) : Nat := log.countP isData

theorem dataCount_append (log sent : List Bytes) : dataCount (log ++ sent) = dataCount log + dataCount sent :=
  List.countP_append

/-- The two counters, and the packets that went out first. -/
structure Counted (cfg : Config Addr) (s : Sender) (log : List Bytes) : Prop where
  payload : s.totalSentPayload.toNat + s.unread.length = cfg.file.length
  data : ∃ again, dataCount log = s.nextSeq.toNat + again ∧ s.retransmits = UInt64.ofNat again
  first : ∀ k < s.nextSeq.toNat, (cfg.entry k).bytes ∈ log

variable {cfg : Config Addr}

theorem isData_entry (cfg : Config Addr) (k : Nat) : isData (cfg.entry k).bytes = true := by
  rw [isData, parse_entry_received]
  rfl

theorem isData_fin (s : Sender) : isData (finPacket s) = false := by
  rw [isData, finPacket, parse_control_received .fin s.nextSeq (by decide)]
  rfl

theorem dataCount_entries {window : List InFlight} (h : ∀ p ∈ window, ∃ k, p = cfg.entry k) :
    dataCount (window.map (·.bytes)) = window.length := by
  rw [dataCount, List.countP_eq_length.mpr, List.length_map]
  intro b hb
  obtain ⟨p, hp, rfl⟩ := List.mem_map.mp hb
  obtain ⟨k, rfl⟩ := h p hp
  exact isData_entry cfg k

theorem file_length_lt (hfit : cfg.Fits) : cfg.file.length < 2 ^ 64 := by
  have hlen := Chunks.length_le_count_mul (mss_pos cfg) cfg.file
  have hmul : cfg.segmentCount * cfg.opt.mss.toNat ≤ (2 ^ 32 - 1) * 1400 :=
    Nat.mul_le_mul hfit cfg.opt.mss_le
  exact (hlen.trans hmul).trans_lt (by decide)

theorem fillWindow_payload (opt : Options) (s : Sender) (sent : List Bytes)
    (h : s.totalSentPayload.toNat + s.unread.length < 2 ^ 64) :
    (fillWindow opt s sent).1.totalSentPayload.toNat + (fillWindow opt s sent).1.unread.length =
        s.totalSentPayload.toNat + s.unread.length ∧
      (fillWindow opt s sent).1.retransmits = s.retransmits := by
  induction s, sent using fillWindow.induct opt with
  | case1 s sent hgoes hnil =>
    rw [fillWindow, if_pos hgoes, if_pos hnil]
    exact ⟨rfl, rfl⟩
  | case2 s sent hgoes hne ih =>
    -- What goes into the packet is what the file has no more.
    have hsplit : (nextChunk opt s).length + (s.unread.drop opt.mss.toNat).length = s.unread.length := by
      rw [nextChunk, ← List.length_append, List.take_append_drop]
    have hpush : (pushChunk opt s (nextChunk opt s)).totalSentPayload.toNat =
        s.totalSentPayload.toNat + (nextChunk opt s).length := by
      rw [pushChunk, UInt64.toNat_add, UInt64.toNat_ofNat', Nat.add_mod_mod]
      exact Nat.mod_eq_of_lt (by omega)
    have hsame : (pushChunk opt s (nextChunk opt s)).totalSentPayload.toNat +
        (pushChunk opt s (nextChunk opt s)).unread.length =
          s.totalSentPayload.toNat + s.unread.length := by
      rw [hpush, pushChunk, Nat.add_assoc, hsplit]
    rw [fillWindow, if_pos hgoes, if_neg hne]
    obtain ⟨hpayload, hretransmits⟩ := ih (hsame ▸ h)
    exact ⟨hpayload.trans hsame, hretransmits⟩
  | case3 s sent hstays =>
    rw [fillWindow, if_neg hstays]
    exact ⟨rfl, rfl⟩

theorem Counted.fill (hfit : cfg.Fits) {s : Sender} {log : List Bytes} (h : Counted cfg s log)
    (hs : s.Safe cfg) : Counted cfg (fillWindow cfg.opt s []).1 (log ++ (fillWindow cfg.opt s []).2) := by
  obtain ⟨-, hfill, hsent⟩ := fillWindow_spec hfit s [] hs.reads
  obtain ⟨hpayload, hretransmits⟩ := fillWindow_payload cfg.opt s [] (h.payload ▸ file_length_lt hfit)
  obtain ⟨again, hdata, hagain⟩ := h.data
  have hgrows := hfill.grows
  rw [List.nil_append] at hsent
  refine ⟨hpayload.trans h.payload, ⟨again, ?_, hretransmits.trans hagain⟩, fun k hk => ?_⟩
  · have hentries : dataCount (fillWindow cfg.opt s []).2 =
        (fillWindow cfg.opt s []).1.nextSeq.toNat - s.nextSeq.toNat := by
      rw [hsent, dataCount_entries, entries_length]
      intro p hp
      obtain ⟨k, -, -, rfl⟩ := (mem_entries cfg).mp hp
      exact ⟨k, rfl⟩
    rw [dataCount_append, hdata, hentries]
    omega
  · by_cases hold : k < s.nextSeq.toNat
    · exact List.mem_append_left _ (h.first k hold)
    · refine List.mem_append_right _ ?_
      rw [hsent]
      exact List.mem_map_of_mem ((mem_entries cfg).mpr ⟨k, Nat.not_lt.mp hold, hk, rfl⟩)

theorem Counted.of_same {s t : Sender} {log sent : List Bytes} (h : Counted cfg s log)
    (hpayload : t.totalSentPayload = s.totalSentPayload) (hunread : t.unread = s.unread)
    (hnext : t.nextSeq = s.nextSeq)
    (hretransmits : t.retransmits = s.retransmits + UInt64.ofNat (dataCount sent)) :
    Counted cfg t (log ++ sent) := by
  obtain ⟨again, hdata, hagain⟩ := h.data
  refine ⟨by rw [hpayload, hunread, h.payload], ⟨again + dataCount sent, ?_, ?_⟩, fun k hk => ?_⟩
  · rw [dataCount_append, hdata, hnext, Nat.add_assoc]
  · rw [hretransmits, hagain, UInt64.ofNat_add]
  · rw [hnext] at hk
    exact List.mem_append_left _ (h.first k hk)

theorem Counted.move (hfit : cfg.Fits) {s t : Sender} {log sent : List Bytes} {input : Option Bytes}
    (h : Counted cfg s log) (hs : s.Safe cfg) (hm : Move cfg.opt s input t sent) :
    Counted cfg t (log ++ sent) := by
  have hnone : s.retransmits = s.retransmits + UInt64.ofNat (dataCount []) := (UInt64.add_zero _).symm
  cases hm with
  | begin hp =>
    have hfill := h.fill hfit hs
    exact ⟨hfill.payload, hfill.data, hfill.first⟩
  | timeout hp hloops =>
    refine h.of_same rfl rfl rfl ?_
    have hwindow : ∀ p ∈ s.window, ∃ k, p = cfg.entry k := fun p hp => by
      obtain ⟨k, -, rfl⟩ := hs.window p hp
      exact ⟨k, rfl⟩
    rw [show (onTimeout s).2 = s.window.map (·.bytes) from rfl, dataCount_entries hwindow]
    rfl
  | datagram b hp hloops =>
    rcases onDatagram_cases cfg.opt s b with he | ⟨pkt, front, window, -, -, -, -, he⟩
    · rw [he]
      exact h.of_same rfl rfl rfl hnone
    · rw [he]
      exact Counted.fill hfit ⟨h.payload, h.data, h.first⟩ (handleAck_safe hs pkt.seq)
  | leave hp hloops => exact h.of_same rfl rfl rfl hnone
  | sendFin hp =>
    refine h.of_same rfl rfl rfl ?_
    rw [dataCount, List.countP_singleton, isData_fin, if_neg Bool.false_ne_true]
    exact hnone
  | finDatagram b hp =>
    rcases onFinDatagram_cases s b with he | ⟨pkt, -, -, -, he⟩
    · rw [he]
      exact h.of_same rfl rfl rfl hnone
    · rw [he]
      exact h.of_same rfl rfl rfl hnone

theorem fresh_safe (cfg : Config Addr) : (Sender.fresh cfg.file).Safe cfg := (fresh_sound cfg).sender

theorem sending_counted (hfit : cfg.Fits) {s : Sender × List Bytes} (h : (sending cfg).Reachable s) :
    s.1.Safe cfg ∧ Counted cfg s.1 s.2 := by
  refine h.invariant (J := fun _ => True) (I := fun s => s.1.Safe cfg ∧ Counted cfg s.1 s.2)
    (fun _ _ => trivial) ?_ ?_
  · rintro _ rfl
    exact ⟨fresh_safe cfg, Nat.zero_add _, ⟨0, rfl, rfl⟩, nofun⟩
  · rintro ⟨s, log⟩ ⟨t, log'⟩ - - ⟨hs, hcounted⟩ ⟨input, sent, hm, rfl⟩
    exact ⟨(hm.safe hfit hs).1, hcounted.move hfit hs hm⟩

/-- **Counters.** Whatever comes to the sender of a file of at most `2 ^ 32 - 1` segments: the payload that it
has counted is what it has read of the file; its retransmissions, modulo `2 ^ 64`, are the DATA packets that it
has sent beyond the first of each number; and from the end of the main loop on, it has counted and sent the
whole file. -/
theorem counters_exact (cfg : Config Addr) (hfit : cfg.segmentCount ≤ 2 ^ 32 - 1) (s : Sender)
    (log : List Bytes) (h : (sending cfg).Reachable (s, log)) :
    s.totalSentPayload.toNat + s.unread.length = cfg.file.length ∧
      s.nextSeq.toNat ≤ dataCount log ∧
      s.retransmits.toNat = (dataCount log - s.nextSeq.toNat) % 2 ^ 64 ∧
      (∀ k < s.nextSeq.toNat, (cfg.entry k).bytes ∈ log) ∧
      (s.closing → s.totalSentPayload.toNat = cfg.file.length ∧ s.nextSeq.toNat = cfg.segmentCount) := by
  obtain ⟨hs, hcounted⟩ := sending_counted hfit h
  obtain ⟨again, hdata, hagain⟩ : ∃ again, dataCount log = s.nextSeq.toNat + again ∧
    s.retransmits = UInt64.ofNat again := hcounted.data
  refine ⟨hcounted.payload, by omega, ?_, hcounted.first, fun hclosing => ?_⟩
  · rw [hagain, hdata, Nat.add_sub_cancel_left]
    exact UInt64.toNat_ofNat'
  have hall := hs.reads.eof (hs.eof hclosing)
  have hread : s.unread = [] := by
    rw [hs.reads.unread, hall]
    exact List.drop_eq_nil_of_le (Chunks.length_le_count_mul (mss_pos cfg) cfg.file)
  have hpayload := hcounted.payload
  rw [hread, List.length_nil, Nat.add_zero] at hpayload
  exact ⟨hpayload, hall⟩

theorem counters_exact_oneByte : ∃ s log, (sending oneByte).Reachable (s, log) ∧
    s.retransmits = 1 ∧ s.totalSentPayload = 1 ∧ dataCount log = 2 ∧
      s.retransmits.toNat = (dataCount log - s.nextSeq.toNat) % 2 ^ 64 := by
  have hbegin : (sending oneByte).Reachable (oneByteSent, [(oneByte.entry 0).bytes]) :=
    .step (.init rfl) ⟨none, _, oneByte_begin, rfl⟩
  have htimeout : Move oneByte.opt oneByteSent none (onTimeout oneByteSent).1 (onTimeout oneByteSent).2 :=
    .timeout rfl (by decide)
  have htwice : (sending oneByte).Reachable
      ((onTimeout oneByteSent).1, [(oneByte.entry 0).bytes] ++ (onTimeout oneByteSent).2) :=
    hbegin.step ⟨none, _, htimeout, rfl⟩
  have hcount : dataCount ([(oneByte.entry 0).bytes] ++ (onTimeout oneByteSent).2) = 2 := by
    rw [dataCount_append]
    have hone : dataCount ([oneByte.entry 0].map (·.bytes)) = 1 :=
      @dataCount_entries Unit oneByte _ fun _ hp => ⟨0, List.mem_singleton.mp hp⟩
    exact congrArg₂ (· + ·) hone hone
  exact ⟨_, _, htwice, rfl, rfl, hcount, (counters_exact oneByte (by decide) _ _ htwice).2.2.1⟩

end Rdtp
