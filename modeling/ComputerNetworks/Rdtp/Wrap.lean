import ComputerNetworks.Lib.Serial
import ComputerNetworks.Rdtp.Counters

/-!
# When the sequence numbers wrap around

`next_seq` counts modulo 2^32, and `main` and `handle_ack` compare by `>=` and `<=`.
-/

open Lib Lib.Serial

namespace Rdtp

variable {Addr : Type}

/-! ## Windows -/

/-- What `fill_window` builds: consecutive sequence numbers up to `next_seq`, and no more packets than
`opt.window`. -/
structure Sender.Numbered (opt : Options) (s : Sender) : Prop where
  seqs : ∃ start : UInt32, Consecutive (2 ^ 32) start.toNat (fun p => p.seq.toNat) s.window ∧
    s.nextSeq.toNat = (start.toNat + s.window.length) % 2 ^ 32
  length_le : s.window.length ≤ opt.window.toNat

theorem numbered_fresh (opt : Options) (file : Bytes) : (Sender.fresh file).Numbered opt where
  seqs := ⟨0, by simp [Consecutive, Sender.fresh], rfl⟩
  length_le := Nat.zero_le _

theorem numbered_fillWindow (opt : Options) (s : Sender) (sent : List Bytes) (h : s.Numbered opt) :
    (fillWindow opt s sent).1.Numbered opt := by
  induction s, sent using fillWindow.induct opt with
  | case1 s sent hc hnil =>
    rw [fillWindow, if_pos hc, if_pos hnil]
    exact ⟨h.seqs, h.length_le⟩
  | case2 s sent hc hne ih =>
    rw [fillWindow, if_pos hc, if_neg hne]
    obtain ⟨start, hseqs, hnext⟩ := h.seqs
    refine ih ⟨⟨start, hseqs.snoc hnext, ?_⟩, ?_⟩
    · simp only [pushChunk, List.length_append, List.length_singleton]
      rw [UInt32.toNat_add, hnext, Nat.mod_add_mod, Nat.add_assoc]
      rfl
    · simp only [pushChunk, List.length_append, List.length_singleton]
      exact hc.2
  | case3 s sent hc =>
    rw [fillWindow, if_neg hc]
    exact h

theorem popAcked_window (ackno : UInt32) (window : List InFlight) (base : UInt32) :
    (popAcked ackno window base).1 = window.dropWhile fun p => p.seq ≤ ackno := by
  induction window generalizing base with
  | nil => rfl
  | cons p window ih =>
    rw [popAcked, List.dropWhile_cons]
    by_cases hle : p.seq ≤ ackno
    · rw [if_pos hle, ih, if_pos (decide_eq_true hle)]
    · rw [if_neg hle, if_neg (by simpa using hle)]

theorem numbered_handleAck {opt : Options} {s : Sender} (h : s.Numbered opt) (ackno : UInt32) :
    (handleAck s ackno).Numbered opt := by
  obtain ⟨start, hseqs, hnext⟩ := h.seqs
  obtain ⟨front, hfront⟩ := List.dropWhile_suffix (l := s.window) fun p : InFlight => p.seq ≤ ackno
  have hwindow : (handleAck s ackno).window = s.window.drop front.length := by
    rw [handleAck_eq]
    dsimp only
    rw [popAcked_window]
    conv_rhs => rw [← hfront, List.drop_left]
  have hlen : s.window.length = front.length + (handleAck s ackno).window.length := by
    rw [hwindow, List.length_drop, ← hfront, List.length_append]
    omega
  refine ⟨⟨start + UInt32.ofNat front.length, ?_, ?_⟩, ?_⟩
  · rw [hwindow, UInt32.toNat_add, UInt32.toNat_ofNat', Nat.add_mod_mod]
    exact (hseqs.drop front.length).mod
  · rw [UInt32.toNat_add, UInt32.toNat_ofNat', Nat.add_mod_mod, Nat.mod_add_mod, Nat.add_assoc, ← hlen]
    exact hnext
  · have := h.length_le
    omega

theorem numbered_move {opt : Options} {s t : Sender} {input : Option Bytes} {sent : List Bytes}
    (h : s.Numbered opt) (hmove : Move opt s input t sent) : t.Numbered opt := by
  cases hmove with
  | begin _ => exact ⟨(numbered_fillWindow opt s [] h).seqs, (numbered_fillWindow opt s [] h).length_le⟩
  | timeout _ _ => exact ⟨h.seqs, h.length_le⟩
  | datagram b _ _ =>
    rcases onDatagram_cases opt s b with he | ⟨pkt, front, window, -, -, -, -, he⟩ <;> rw [he]
    · exact h
    · exact numbered_fillWindow opt _ [] (numbered_handleAck h pkt.seq)
  | leave _ _ => exact ⟨h.seqs, h.length_le⟩
  | sendFin _ => exact h
  | finDatagram b _ =>
    rcases onFinDatagram_cases s b with he | ⟨pkt, -, -, -, he⟩ <;> rw [he]
    · exact h
    · exact ⟨h.seqs, h.length_le⟩

theorem sending_numbered {cfg : Config Addr} {s : Sender} {log : List Bytes}
    (h : (sending cfg).Reachable (s, log)) : s.Numbered cfg.opt := by
  refine h.invariant (J := fun _ => True) (I := fun s => s.1.Numbered cfg.opt) (fun _ _ => trivial) ?_ ?_
  · rintro _ rfl
    exact numbered_fresh cfg.opt cfg.file
  · rintro _ _ - - hnumbered ⟨_, _, hm, -⟩
    exact numbered_move hnumbered hm

/-! ## Acknowledging -/

/-- What `main` does with an ACK number: the test against the front, and `handle_ack`. -/
def Sender.acknowledge (s : Sender) (ackno : UInt32) : Sender :=
  match s.window with
  | [] => s
  | front :: _ => if front.seq ≤ ackno then handleAck s ackno else s

theorem onDatagram_acknowledge (opt : Options) (s : Sender) {b : Bytes} {pkt : ParsedPacket}
    (hpkt : parsePacket (recvfrom senderBuf b) = some pkt) (hack : pkt.type = .ack) :
    (onDatagram opt s b).1 = s.acknowledge pkt.seq ∨
      (onDatagram opt s b).1 = (fillWindow opt (s.acknowledge pkt.seq) []).1 := by
  unfold onDatagram Sender.acknowledge
  rw [hpkt]
  dsimp only
  rw [if_neg (not_not.mpr hack)]
  cases s.window with
  | nil => exact Or.inl rfl
  | cons front _ =>
    dsimp only
    split_ifs
    · exact Or.inr rfl
    · exact Or.inl rfl

theorem acknowledge_window (s : Sender) (ackno : UInt32) :
    (s.acknowledge ackno).window = s.window.dropWhile fun p => p.seq.toNat ≤ ackno.toNat := by
  have hpop := popAcked_window ackno s.window s.base
  simp only [UInt32.le_iff_toNat_le] at hpop
  unfold Sender.acknowledge
  split
  · rename_i hnil
    rw [hnil]
    rfl
  · rename_i front rest hcons
    split
    · rw [← hpop]
      rfl
    · -- The ACK is refused, and by the same comparison nothing would be dropped.
      rename_i hfront
      rw [UInt32.le_iff_toNat_le] at hfront
      rw [hcons, List.dropWhile_cons, if_neg (by simpa using hfront)]

/-- **Cumulative ACKs.** The ACK of an entry takes this entry and those before it from the window, and
nothing else, exactly if neither its sequence number nor the one behind it has wrapped around. -/
theorem cumulative_ack_iff (opt : Options) (s : Sender) (start : UInt32)
    (hwindow : Consecutive (2 ^ 32) start.toNat (fun p => p.seq.toNat) s.window)
    (hlen : s.window.length ≤ opt.window.toNat) {k : Nat} {p : InFlight}
    (hp : s.window[k]? = some p) :
    (s.acknowledge p.seq).window = s.window.drop (k + 1) ↔
      start.toNat + k < 2 ^ 32 ∧ (k + 1 < s.window.length → start.toNat + k + 1 < 2 ^ 32) := by
  have hsize : s.window.length ≤ 2 ^ 32 := hlen.trans opt.window.toNat_lt.le
  rw [acknowledge_window]
  exact hwindow.dropWhile_iff start.toNat_lt hsize hp

/-- The ACK of the first of two segments. -/
theorem first_of_two_acknowledged :
    let window := [dataInFlight 0 [1], dataInFlight 1 [2]]
    (({ Sender.fresh [] with window } : Sender).acknowledge 0).window = [dataInFlight 1 [2]] := by
  intro window
  have hwindow : Consecutive (2 ^ 32) (0 : UInt32).toNat (fun p => p.seq.toNat) window := by
    rintro (_ | _ | i) x hx
    · cases hx
      rfl
    · cases hx
      rfl
    · cases hx
  exact (cumulative_ack_iff ⟨1, 2, 10, by decide, by decide, by decide, by decide⟩
    { Sender.fresh [] with window } 0 hwindow (by decide) (k := 0) (p := dataInFlight 0 [1]) rfl).mpr
      (by decide)

/-- Two segments before the wrap, with three bytes still to send. -/
def beforeWrap : Sender := { Sender.fresh [1, 2, 3] with nextSeq := 0xFFFFFFFE }

/-- The ACK of the segment behind the wrap is refused, and the one of the last segment before it takes
all three from the window. -/
theorem wrapped_ack_refused :
    let opt : Options := ⟨1, 3, 10, by decide, by decide, by decide, by decide⟩
    let s := (fillWindow opt beforeWrap []).1
    s.window.map (·.seq) = [0xFFFFFFFE, 0xFFFFFFFF, 0] ∧
      (s.acknowledge 0).window ≠ s.window.drop 3 ∧
      (s.acknowledge 0xFFFFFFFF).window ≠ s.window.drop 2 := by
  intro opt s
  have hs : s.window =
      [dataInFlight 0xFFFFFFFE [1], dataInFlight 0xFFFFFFFF [2], dataInFlight 0 [3]] := by
    simp [s, opt, beforeWrap, fillWindow, nextChunk, pushChunk, Sender.fresh]
  have hrefused : (s.acknowledge 0).window = s.window := by
    simp [Sender.acknowledge, hs, dataInFlight]
  have hall : (s.acknowledge 0xFFFFFFFF).window = [] := by
    simp [Sender.acknowledge, handleAck_eq, hs, popAcked, dataInFlight]
  rw [hrefused, hall, hs]
  simp [dataInFlight]

/-! ## In every run -/

/-- **Windows.** However long the file is and whatever comes to the sender: the window has consecutive numbers,
up to `next_seq` and modulo 2^32, and no more of them than `opt.window`. Of the ACK of an entry `main` leaves
the entries behind it, and adds to these at most, exactly if neither number has wrapped around. -/
theorem window_in_run (cfg : Config Addr) (s : Sender) (log : List Bytes)
    (h : (sending cfg).Reachable (s, log)) :
    s.window.length ≤ cfg.opt.window.toNat ∧
    ∃ start : UInt32, Consecutive (2 ^ 32) start.toNat (fun p => p.seq.toNat) s.window ∧
      s.nextSeq.toNat = (start.toNat + s.window.length) % 2 ^ 32 ∧
      ∀ k p b pkt, s.window[k]? = some p → parsePacket (recvfrom senderBuf b) = some pkt →
        pkt.type = .ack → pkt.seq = p.seq →
          ((onDatagram cfg.opt s b).1 = s.acknowledge p.seq ∨
            (onDatagram cfg.opt s b).1 = (fillWindow cfg.opt (s.acknowledge p.seq) []).1) ∧
          ((s.acknowledge p.seq).window = s.window.drop (k + 1) ↔
            start.toNat + k < 2 ^ 32 ∧
              (k + 1 < s.window.length → start.toNat + k + 1 < 2 ^ 32)) := by
  obtain ⟨⟨start, hseqs, hnext⟩, hlen⟩ := sending_numbered h
  refine ⟨hlen, start, hseqs, hnext, fun k p b pkt hp hpkt hack hseq => ⟨?_, ?_⟩⟩
  · rw [← hseq]
    exact onDatagram_acknowledge cfg.opt s hpkt hack
  · rw [acknowledge_window]
    exact hseqs.dropWhile_iff start.toNat_lt (hlen.trans cfg.opt.window.toNat_lt.le) hp

theorem window_in_run_oneByte : ∃ s log, (sending oneByte).Reachable (s, log) ∧
    s.window = [oneByte.entry 0] ∧ (s.acknowledge 0).window = [] := by
  have hreach : (sending oneByte).Reachable (oneByteSent, [(oneByte.entry 0).bytes]) :=
    .step (.init rfl) ⟨none, _, oneByte_begin, rfl⟩
  obtain ⟨-, start, hseqs, -, hack⟩ := window_in_run oneByte _ _ hreach
  have hstart : 0 = (start.toNat + 0) % 2 ^ 32 := hseqs 0 (oneByte.entry 0) rfl
  have hlt := start.toNat_lt
  obtain ⟨-, hiff⟩ := hack 0 (oneByte.entry 0) (ackPacket 0) ⟨.ack, 0, []⟩ rfl (parse_ack_received 0) rfl rfl
  exact ⟨_, _, hreach, rfl, hiff.mpr ⟨by omega, fun hlong => absurd hlong (by decide)⟩⟩

end Rdtp
