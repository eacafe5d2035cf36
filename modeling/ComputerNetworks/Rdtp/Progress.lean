import ComputerNetworks.Rdtp.Agreement

/-!
# Progress: which transfers can still come to their end

From every reachable state but one kind, the sender can be brought to the end of its FIN loop. The one
kind: the receiver has left its loop, and no copy of its answer to the FIN is under way.
-/

open Lib Lib.Channel

namespace Rdtp

variable {Addr : Type} {cfg : Config Addr}

/-! ## Dead ends -/

/-- The one datagram that ends the FIN loop. -/
def State.answer (cfg : Config Addr) (s : State Addr) : Addr × Bytes :=
  (cfg.senderAddr, ackPacket s.sender.nextSeq)

/-- The receiver is gone, and its answer to the FIN is not under way. -/
def State.AnswerLost (cfg : Config Addr) (s : State Addr) : Prop :=
  s.receiver.finished = true ∧ s.answer cfg ∉ s.toSender

theorem ackPacket_injective {a b : UInt32} (h : ackPacket a = ackPacket b) : a = b := by
  have := parse_ack_received a
  rw [h, parse_ack_received] at this
  simpa using this.symm

theorem State.Sound.fin {s : State Addr} (hs : s.Sound cfg) (hf : s.receiver.finished = true)
    (hp : s.sender.phase ≠ .finished) : s.sender.phase = .fin :=
  (hs.receiver.finished hf).1.resolve_right hp

theorem finDatagram_cases {s : State Addr} (ha : s.Agreed cfg) {d : Addr × Bytes}
    (hd : d ∈ s.toSender) :
    d = s.answer cfg ∧ onFinDatagram s.sender d.2 = { s.sender with phase := .finished } ∨
      d ≠ s.answer cfg ∧ onFinDatagram s.sender d.2 = s.sender := by
  obtain ⟨hto, a, hack, -⟩ := ha.toSender d hd
  obtain ⟨addr, b⟩ := d
  simp only at hto hack
  subst hto hack
  rw [onFinDatagram_ack]
  by_cases h : a = s.sender.nextSeq
  · rw [if_pos h, h]
    exact Or.inl ⟨rfl, rfl⟩
  · rw [if_neg h]
    refine Or.inr ⟨fun heq => h ?_, rfl⟩
    exact ackPacket_injective (congrArg Prod.snd heq)

theorem dead_end_step (hfit : cfg.Fits) (hquiet : cfg.Quiet) {s t : State Addr}
    (hs : s.Sound cfg) (ha : s.Agreed cfg) (h : s.AnswerLost cfg ∧ s.sender.phase ≠ .finished)
    (hst : Step cfg s t) : t.AnswerLost cfg ∧ t.sender.phase ≠ .finished := by
  obtain ⟨⟨hf, hlost⟩, hp⟩ := h
  have hfin := hs.fin hf hp
  cases hst with
  | senderAlone hm =>
    have hnext := ((hm.safe hfit hs.sender).2.1.closed (Or.inl hfin)).2
    refine ⟨⟨hf, ?_⟩, (hm.alone_exact hfit hs.sender ha.exact).2.2⟩
    simpa only [State.answer, State.senderMoved, hnext] using hlost
  | senderTakes htake hm =>
    cases hm with
    | datagram _ hmain _ => rw [hfin] at hmain; cases hmain
    | finDatagram _ _ =>
      -- What it takes is not the answer, so it stays where it is.
      rcases finDatagram_cases ha htake.mem with ⟨heq, -⟩ | ⟨-, hsame⟩
      · exact absurd (heq ▸ htake.mem) hlost
      · simp only at hsame
        rw [hsame]
        exact ⟨⟨hf, fun hmem => hlost (htake.subset _ hmem)⟩, hp⟩
  | senderNoise hb hm =>
    rw [senderMoved_refused hm (hquiet _ hb)]
    exact ⟨⟨hf, hlost⟩, hp⟩
  | receiverTakes hopen _ => simp [hf] at hopen
  | receiverNoise _ hopen _ => simp [hf] at hopen
  | faultToReceiver _ => exact ⟨⟨hf, hlost⟩, hp⟩
  | faultToSender hfault => exact ⟨⟨hf, fun hmem => hlost (hfault.subset _ hmem)⟩, hp⟩

theorem dead_end (hfit : cfg.Fits) (hquiet : cfg.Quiet) {s t : State Addr}
    (h : (transfer cfg).Reachable s) (hlost : s.AnswerLost cfg) (hp : s.sender.phase ≠ .finished)
    (hst : (transfer cfg).Leads s t) : t.sender.phase ≠ .finished :=
  (h.trapped (T := fun s => s.AnswerLost cfg ∧ s.sender.phase ≠ .finished)
    (fun _ _ hr ht hs => dead_end_step hfit hquiet (reachable_sound hfit hr)
      (reachable_agreed hfit hquiet hr) ht hs) ⟨hlost, hp⟩ hst).2

/-! ## Continuations -/

/-- A delivery, a timeout or a send: the network does nothing of its own. -/
inductive Turn (cfg : Config Addr) : State Addr → State Addr → Prop where
  | alone {s : State Addr} {t : Sender} {sent : List Bytes} :
      Move cfg.opt s.sender none t sent → Turn cfg s (s.senderMoved cfg none t sent)
  | taken {s : State Addr} {t : Sender} {sent : List Bytes} {b : Bytes}
      {rest : List (Addr × Bytes)} :
      Takes s.toSender (cfg.senderAddr, b) rest → Move cfg.opt s.sender (some b) t sent →
      Turn cfg s ({ s with toSender := rest }.senderMoved cfg (some b) t sent)
  | received {s : State Addr} {b : Bytes} {rest : List (Addr × Bytes)} :
      s.receiver.finished = false → Takes s.toReceiver (cfg.senderAddr, b) rest →
      Turn cfg s ({ s with toReceiver := rest }.receiverMoved cfg.senderAddr b)

theorem Turn.step {s t : State Addr} (h : Turn cfg s t) : Step cfg s t := by
  cases h with
  | alone hm => exact .senderAlone hm
  | taken htake hm => exact .senderTakes htake hm
  | received hopen htake => exact .receiverTakes hopen htake

/-- How a transfer can go on from where it is. -/
def continuation (cfg : Config Addr) : System (State Addr) where
  init := (transfer cfg).Reachable
  step := Turn cfg

theorem continuation_reachable {s : State Addr} (h : (continuation cfg).Reachable s) :
    (transfer cfg).Reachable s := by
  induction h with
  | init h => exact h
  | step _ hs ih => exact ih.step hs.step

theorem continuation_leads {s t : State Addr} (h : (continuation cfg).Leads s t) :
    (transfer cfg).Leads s t := by
  induction h with
  | refl => exact .refl _
  | tail _ hs ih => exact ih.step hs.step

/-! ## Answers -/

theorem Receiver.Safe.meet_peer {s : Sender} {r : Receiver Addr} (h : r.Safe cfg s) :
    (r.meet cfg.senderAddr).peer = some cfg.senderAddr := by
  unfold Receiver.meet
  split
  · rfl
  · rename_i a hpeer
    rw [hpeer, h.peer a hpeer]

theorem sendAck_peer {r : Receiver Addr} {addr : Addr} (h : r.peer = some addr) (a : UInt32) :
    r.sendAck a = [(addr, ackPacket a)] := by
  rw [Receiver.sendAck, h]

theorem answer_segment (hfit : cfg.Fits) {s : Sender} (hs : s.Safe cfg) {r : Receiver Addr}
    (h : r.Safe cfg s) {k : Nat} (hk : k ≤ r.expected.toNat) (hkn : k < s.nextSeq.toNat) :
    ∃ a : UInt32, (r.onDatagram cfg.senderAddr (cfg.entry k).bytes).2 =
        [(cfg.senderAddr, ackPacket a)] ∧ k ≤ a.toNat ∧ a.toNat < s.nextSeq.toNat := by
  have hkseq : (UInt32.ofNat k).toNat = k :=
    entry_seq_toNat hfit (lt_of_lt_of_le hkn hs.reads.count)
  have hexp := h.expected
  simp only [Receiver.onDatagram, parse_entry_received, Receiver.onPacket, meet_expected]
  split
  · -- The one that it waits for.
    rename_i he
    refine ⟨r.expected, ?_, hk, by rw [← he, hkseq]; exact hkn⟩
    rw [sendAck_peer (by rw [accept_peer, h.meet_peer]), accept_lastInOrderAck, meet_expected]
  · -- One that it has: it says again up to where it has all.
    rename_i hne
    have hlt : k < r.expected.toNat := by
      refine lt_of_le_of_ne hk fun he => hne ?_
      rw [he, UInt32.ofNat_toNat]
    have hpred := toNat_pred (e := r.expected) (by omega)
    refine ⟨r.expected - 1, ?_, by omega, by omega⟩
    rw [Receiver.ackAgain, meet_lastInOrderAck, h.lastAck, if_pos, sendAck_peer h.meet_peer]
    intro he
    have := congrArg UInt32.toNat he
    rw [hpred] at this
    have : noDataYet.toNat = 2 ^ 32 - 1 := rfl
    have := r.expected.toNat_lt
    omega

theorem answer_fin {s : Sender} {r : Receiver Addr} (h : r.Safe cfg s)
    (he : r.expected = s.nextSeq) :
    (r.onDatagram cfg.senderAddr (finPacket s)).2 = [(cfg.senderAddr, ackPacket s.nextSeq)] := by
  have hparse := parse_control_received .fin s.nextSeq (show 20 ≤ receiverBuf by decide)
  simp only [Receiver.onDatagram, finPacket, hparse, Receiver.onPacket, meet_expected, he, if_true]
  exact sendAck_peer h.meet_peer _

/-! ## Turns -/

theorem alone_turn {s : State Addr} {u : Sender} {sent : List Bytes}
    (hm : Move cfg.opt s.sender none u sent) :
    ∃ t, Turn cfg s t ∧ t.sender = u ∧ t.receiver = s.receiver ∧
      ∀ b ∈ sent, (cfg.senderAddr, b) ∈ t.toReceiver := by
  refine ⟨_, .alone hm, rfl, rfl, fun b hb => ?_⟩
  exact List.mem_append_right _ (List.mem_map.mpr ⟨b, hb, rfl⟩)

theorem received_turn {s : State Addr} {b : Bytes} (hopen : s.receiver.finished = false)
    (hmem : (cfg.senderAddr, b) ∈ s.toReceiver) :
    ∃ t, Turn cfg s t ∧ t.sender = s.sender ∧
      ∀ d ∈ (s.receiver.onDatagram cfg.senderAddr b).2, d ∈ t.toSender := by
  obtain ⟨rest, htake⟩ := takes_of_mem hmem
  exact ⟨_, .received hopen htake, rfl, fun d hd => List.mem_append_right _ hd⟩

theorem taken_turn {s : State Addr} {b : Bytes} {u : Sender} {sent : List Bytes}
    (hmem : (cfg.senderAddr, b) ∈ s.toSender) (hm : Move cfg.opt s.sender (some b) u sent) :
    ∃ t, Turn cfg s t ∧ t.sender = u := by
  obtain ⟨rest, htake⟩ := takes_of_mem hmem
  exact ⟨_, .taken htake hm, rfl⟩

theorem listens {s : State Addr} (hs : s.Sound cfg) (hp : s.sender.phase = .main) :
    s.receiver.finished = false := by
  rw [← Bool.not_eq_true]
  exact fun hf => not_closing (Or.inr hp) (hs.receiver.finished hf).1

section Rounds

variable (hfit : cfg.Fits) (hquiet : cfg.Quiet)

include hfit hquiet

theorem round {s : State Addr} (h : (transfer cfg).Reachable s) (hp : s.sender.phase = .main)
    (hl : s.sender.loops = true) :
    ∃ t, (continuation cfg).Leads s t ∧ t.sender.phase = .main ∧
      s.sender.base.toNat < t.sender.base.toNat := by
  have hs := reachable_sound hfit h
  have ha := reachable_agreed hfit hquiet h
  have hlt := ha.exact.base_lt hp hl
  -- The timeout sends the whole window.
  obtain ⟨t1, h1, hsender1, hreceiver1, hsent⟩ := alone_turn (.timeout hp hl)
  have hfront : (cfg.senderAddr, (cfg.entry s.sender.base.toNat).bytes) ∈ t1.toReceiver := by
    refine hsent _ (List.mem_map.mpr ⟨_, ?_, rfl⟩)
    rw [ha.exact.window]
    exact (mem_entries cfg).mpr ⟨_, le_refl _, hlt, rfl⟩
  -- The receiver takes the first packet of it, and answers.
  obtain ⟨t2, h2, hsender2, hanswers⟩ := received_turn (hreceiver1 ▸ listens hs hp) hfront
  obtain ⟨a, hanswer, hle, hlast⟩ := answer_segment hfit hs.sender hs.receiver ha.base_le hlt
  rw [hreceiver1, hanswer] at hanswers
  -- The sender takes the answer.
  have hs2 : t2.sender = (onTimeout s.sender).1 := by rw [hsender2, hsender1]
  have hm : Move cfg.opt t2.sender (some (ackPacket a)) _ _ :=
    .datagram _ (by rw [hs2]; exact hp) (by rw [hs2]; exact hl)
  obtain ⟨t3, h3, hsender3⟩ := taken_turn (hanswers _ (List.mem_singleton_self _)) hm
  have hr2 : (transfer cfg).Reachable t2 := (h.step h1.step).step h2.step
  obtain ⟨-, hmain, -, hpast, -⟩ := onDatagram_ack hfit (reachable_sound hfit hr2).sender
    (reachable_agreed hfit hquiet hr2).exact (by rw [hs2]; exact hp) (by rw [hs2]; exact hl)
    (a := a) (by rw [hs2]; exact hlast)
  refine ⟨t3, ((System.Leads.of_step h1).step h2).step h3, ?_, ?_⟩
  · rw [hsender3]; exact hmain
  · rw [hsender3]; omega

theorem leads_main {s : State Addr} (h : (transfer cfg).Reachable s) (hp : s.sender.phase = .main) :
    ∃ t, (continuation cfg).Leads s t ∧ t.sender.phase = .main ∧ t.sender.loops = false := by
  have hr : (continuation cfg).Reachable s := .init h
  refine hr.progress (I := fun s => s.sender.phase = .main) (G := fun s => s.sender.loops = false)
    (fun s => cfg.segmentCount - s.sender.base.toNat) ?_ hp
  intro s hr hp
  have h := continuation_reachable hr
  cases hl : s.sender.loops with
  | false => exact Or.inl rfl
  | true =>
    obtain ⟨t, hst, hpt, hlt⟩ := round hfit hquiet h hp hl
    have ht := continuation_reachable (hr.leads hst)
    have hle := (reachable_agreed hfit hquiet ht).exact.le
    have hcount := (reachable_sound hfit ht).sender.reads.count
    exact Or.inr ⟨t, hst, hpt, by omega⟩

theorem leads_fin {s : State Addr} (h : (transfer cfg).Reachable s) (hp : s.sender.phase = .fin)
    (hopen : s.receiver.finished = false) :
    ∃ t, (continuation cfg).Leads s t ∧ t.sender.phase = .finished := by
  have hs := reachable_sound hfit h
  have ha := reachable_agreed hfit hquiet h
  have he : s.receiver.expected = s.sender.nextSeq := by
    have hwindow := congrArg List.length (ha.exact.closed (Or.inl hp))
    rw [ha.exact.window, entries_length, List.length_nil] at hwindow
    have := ha.base_le
    have := hs.receiver.expected
    exact UInt32.toNat_inj.mp (by omega)
  obtain ⟨t1, h1, hsender1, hreceiver1, hsent⟩ := alone_turn (.sendFin hp)
  obtain ⟨t2, h2, hsender2, hanswers⟩ :=
    received_turn (hreceiver1 ▸ hopen) (hsent _ (List.mem_singleton_self _))
  rw [hreceiver1, answer_fin hs.receiver he] at hanswers
  have hs2 : t2.sender = s.sender := by rw [hsender2, hsender1]
  obtain ⟨t3, h3, hsender3⟩ := taken_turn (hanswers _ (List.mem_singleton_self _))
    (.finDatagram _ (by rw [hs2]; exact hp))
  refine ⟨t3, ((System.Leads.of_step h1).step h2).step h3, ?_⟩
  rw [hsender3, hs2, onFinDatagram_ack, if_pos rfl]

/-- **Progress.** What is not lost can be brought to its end. -/
theorem leads_finished {s : State Addr} (h : (transfer cfg).Reachable s)
    (hlost : ¬ s.AnswerLost cfg) : ∃ t, (continuation cfg).Leads s t ∧ t.sender.phase = .finished := by
  have main : ∀ s : State Addr, (transfer cfg).Reachable s → s.sender.phase = .main →
      ∃ t, (continuation cfg).Leads s t ∧ t.sender.phase = .finished := by
    intro s h hp
    obtain ⟨t, hst, hpt, hl⟩ := leads_main hfit hquiet h hp
    have ht := h.leads (continuation_leads hst)
    obtain ⟨u, htu, hsender, hreceiver, -⟩ := alone_turn (s := t) (.leave hpt hl)
    have hopen := listens (reachable_sound hfit ht) hpt
    obtain ⟨v, huv, hv⟩ := leads_fin hfit hquiet (ht.step htu.step) (by rw [hsender])
      (by rw [hreceiver]; exact hopen)
    exact ⟨v, (hst.step htu).trans huv, hv⟩
  cases hp : s.sender.phase with
  | start =>
    obtain ⟨t, hst, hsender, -⟩ := alone_turn (s := s) (.begin hp)
    obtain ⟨u, htu, hu⟩ := main t (h.step hst.step) (by rw [hsender])
    exact ⟨u, (System.Leads.of_step hst).trans htu, hu⟩
  | main => exact main s h hp
  | fin =>
    cases hf : s.receiver.finished with
    | false => exact leads_fin hfit hquiet h hp hf
    | true =>
      -- The receiver is gone, but its answer is still under way.
      have hmem : s.answer cfg ∈ s.toSender := by
        by_contra hno
        exact hlost ⟨hf, hno⟩
      obtain ⟨t, hst, hsender⟩ := taken_turn hmem (.finDatagram _ hp)
      refine ⟨t, .of_step hst, ?_⟩
      rw [hsender, onFinDatagram_ack, if_pos rfl]
  | finished => exact ⟨s, .refl s, hp⟩

end Rounds

/-! ## The theorem -/

def KeepsAnswer (cfg : Config Addr) (s t : State Addr) : Prop :=
  s.receiver.finished = true → t.sender = s.sender → s.answer cfg ∈ s.toSender →
    s.answer cfg ∈ t.toSender

theorem Move.not_finished {opt : Options} {s t : Sender} {input : Option Bytes} {sent : List Bytes}
    (h : Move opt s input t sent) : s.phase ≠ .finished := by
  intro hp
  cases h <;> simp_all

theorem finishing_answers {s : Sender} {r : Receiver Addr} (h : r.Safe cfg s)
    (hopen : r.finished = false) {b : Bytes} (hb : s.sends cfg b)
    (hf : (r.onDatagram cfg.senderAddr b).1.finished = true) :
    (cfg.senderAddr, ackPacket s.nextSeq) ∈ (r.onDatagram cfg.senderAddr b).2 := by
  rcases hb with ⟨k, -, rfl⟩ | ⟨-, rfl⟩
  · -- A segment leaves it in its loop.
    simp only [Receiver.onDatagram, parse_entry_received, Receiver.onPacket] at hf
    split at hf <;> simp [hopen] at hf
  · by_cases he : r.expected = s.nextSeq
    · rw [answer_fin h he]
      exact List.mem_singleton_self _
    · have hparse := parse_control_received .fin s.nextSeq (show 20 ≤ receiverBuf by decide)
      simp only [Receiver.onDatagram, finPacket, hparse, Receiver.onPacket, meet_expected,
        if_neg (Ne.symm he), meet_finished, hopen] at hf
      cases hf

theorem keeps_answer_step (hfit : cfg.Fits) (hquiet : cfg.Quiet) {s t : State Addr}
    (hs : s.Sound cfg) (ha : s.Agreed cfg)
    (ih : s.receiver.finished = true → s.sender.phase ≠ .finished → s.answer cfg ∈ s.toSender)
    (hst : Step cfg s t) (hkeeps : KeepsAnswer cfg s t) (hf : t.receiver.finished = true)
    (hp : t.sender.phase ≠ .finished) : t.answer cfg ∈ t.toSender := by
  cases hst with
  | senderAlone hm =>
    have hnext := ((hm.safe hfit hs.sender).2.1.closed (hs.receiver.finished hf).1).2
    simpa only [State.answer, State.senderMoved, hnext] using ih hf hm.not_finished
  | senderTakes htake hm =>
    have hfin := hs.fin hf hm.not_finished
    cases hm with
    | datagram _ hmain _ => rw [hfin] at hmain; cases hmain
    | finDatagram _ _ =>
      rcases finDatagram_cases ha htake.mem with ⟨-, hend⟩ | ⟨hne, hsame⟩
      · -- The sender takes the answer, and is done.
        simp only at hend
        exact absurd (by simp [State.senderMoved, hend]) hp
      · simp only at hsame
        rw [hsame]
        exact htake.mem_rest (ih hf (by rw [hfin]; decide)) (Ne.symm hne)
  | senderNoise hb hm =>
    rw [senderMoved_refused hm (hquiet _ hb)] at hf hp ⊢
    exact ih hf hp
  | receiverTakes hopen htake =>
    obtain ⟨hsrc, hb⟩ := hs.toReceiver _ htake.mem
    subst hsrc
    exact List.mem_append_right _ (finishing_answers hs.receiver hopen hb hf)
  | receiverNoise source _ hb =>
    rw [receiverMoved_refused s source hb] at hf hp ⊢
    exact ih hf hp
  | faultToReceiver _ => exact ih hf hp
  | faultToSender _ => exact hkeeps hf rfl (ih hf hp)

theorem keeps_answer (hfit : cfg.Fits) (hquiet : cfg.Quiet) {s : State Addr}
    (h : ((transfer cfg).within (KeepsAnswer cfg)).Reachable s) (hp : s.sender.phase ≠ .finished) :
    ¬ s.AnswerLost cfg := by
  have hkept : s.receiver.finished = true → s.sender.phase ≠ .finished →
      s.answer cfg ∈ s.toSender := by
    refine h.invariant (J := (transfer cfg).Reachable)
      (I := fun s => s.receiver.finished = true → s.sender.phase ≠ .finished →
        s.answer cfg ∈ s.toSender) (fun _ => .of_within) ?_ ?_
    · rintro s rfl hf
      cases hf
    · rintro s t hr - ih ⟨hst, hkeeps⟩
      exact keeps_answer_step hfit hquiet (reachable_sound hfit hr) (reachable_agreed hfit hquiet hr)
        ih hst hkeeps
  exact fun hlost => hlost.2 (hkept hlost.1 hp)

/-- **Dead ends.** A transfer can go on to the end of the FIN loop exactly when the answer to the FIN is
not lost, and when it is lost, nothing helps. While no step loses it, every state can go on. -/
theorem no_dead_end_iff (cfg : Config Addr) (hfit : cfg.segmentCount ≤ 2 ^ 32 - 1)
    (hquiet : ∀ b, cfg.noise b → parsePacket (recvfrom senderBuf b) = none) :
    (∀ s, (transfer cfg).Reachable s → s.sender.phase ≠ .finished →
      ((∃ t, (continuation cfg).Leads s t ∧ t.sender.phase = .finished) ↔
        ¬ (s.receiver.finished = true ∧
          (cfg.senderAddr, ackPacket s.sender.nextSeq) ∉ s.toSender)) ∧
      ((∃ t, (transfer cfg).Leads s t ∧ t.sender.phase = .finished) ↔
        ¬ (s.receiver.finished = true ∧
          (cfg.senderAddr, ackPacket s.sender.nextSeq) ∉ s.toSender))) ∧
    ∀ s, ((transfer cfg).within (KeepsAnswer cfg)).Reachable s → s.sender.phase ≠ .finished →
      ∃ t, (continuation cfg).Leads s t ∧ t.sender.phase = .finished := by
  refine ⟨fun s h hp => ?_, fun s h hp => ?_⟩
  · have hend : (∃ t, (transfer cfg).Leads s t ∧ t.sender.phase = .finished) → ¬ s.AnswerLost cfg :=
      fun ⟨t, hst, hpt⟩ hlost => dead_end hfit hquiet h hlost hp hst hpt
    have hgo := leads_finished hfit hquiet h
    refine ⟨⟨fun ⟨t, hst, hpt⟩ => ?_, hgo⟩, ⟨hend, fun hlost => ?_⟩⟩
    · exact hend ⟨t, continuation_leads hst, hpt⟩
    obtain ⟨t, hst, hpt⟩ := hgo hlost
    exact ⟨t, continuation_leads hst, hpt⟩
  · exact leads_finished hfit hquiet h.of_within (keeps_answer hfit hquiet h hp)

theorem oneByte_goes_on :
    oneByte.segmentCount ≤ 2 ^ 32 - 1 ∧
      ∃ t, (continuation oneByte).Leads (.fresh oneByte.file) t ∧ t.sender.phase = .finished :=
  ⟨by decide, (no_dead_end_iff oneByte (by decide) fun _ h => h.elim).2 _ (.init rfl) (by decide)⟩

def oneByteLost : State Unit :=
  { sender := oneByteAcked .fin
    receiver := ⟨1, 0, some (), [7], 1, true⟩
    toReceiver := [], toSender := []
    history := ⟨[0], [ackPacket 0]⟩ }

/-- One lost ACK, and the sender sends its FIN for good. -/
theorem oneByte_dead_end :
    (transfer oneByte).Reachable oneByteLost ∧ oneByteLost.sender.phase ≠ .finished ∧
      ∀ t, (transfer oneByte).Leads oneByteLost t → t.sender.phase ≠ .finished := by
  have hfin : parsePacket (recvfrom receiverBuf (finPacket (oneByteAcked .fin))) =
      some ⟨.fin, 1, []⟩ := parse_control_received .fin 1 (by decide)
  have h1 := oneByte_closing.step (.receiverTakes rfl (takes_head _ _))
  simp only [State.receiverMoved, Receiver.onDatagram, isData, hfin] at h1
  have h2 : (transfer oneByte).Reachable oneByteLost :=
    h1.step (.faultToSender (.lose (takes_head _ _)))
  have hlost : oneByteLost.AnswerLost oneByte := ⟨rfl, by simp [oneByteLost]⟩
  have hfit : oneByte.Fits := by unfold Config.Fits; decide
  have hquiet : oneByte.Quiet := fun _ h => h.elim
  exact ⟨h2, by decide, fun t hst => dead_end hfit hquiet h2 hlost (by decide) hst⟩

end Rdtp
