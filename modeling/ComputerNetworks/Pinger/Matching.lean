import ComputerNetworks.Pinger.Slots
import Mathlib.Data.Set.Card

/-!
# Replies and their pings

The client takes what it reads for the reply to its last ping. What it reads is what came first.
-/

open Lib

namespace Pinger

variable {o : Options} {c t : Client} {i : ClientInput} {out new : List ClientOutput}

/-! ## Timeouts -/

theorem advance_not_waiting (deadline : Nat) : (c.advance o).phase ≠ .waiting deadline := by
  unfold Client.advance
  dsimp only
  split <;> exact Phase.noConfusion

theorem finish_not_waiting (time deadline : Nat) : (c.finish o time).phase ≠ .waiting deadline := by
  unfold Client.finish
  split
  · exact Phase.noConfusion
  · exact advance_not_waiting deadline

def ClientOutput.IsAnswer : ClientOutput → Prop
  | .reply .. => True
  | .malformed _ => True
  | _ => False

variable (o) in
/-- When the pings were sent, and what that says of the echoes that came. -/
structure Timed (c : Client) (out : List ClientOutput) : Prop where
  sent_le : ∀ seq time, .sent seq time ∈ out → seq ≤ c.pings.length
  waiting : ∀ deadline, c.phase = .waiting deadline →
    (∃ time, .sent c.seq time ∈ out) ∧ (∀ time, .sent c.seq time ∈ out → deadline = time + o.timeout) ∧
      (c.buffer = [] → c.now < deadline)
  own : ∀ seq came, .arrived seq seq came ∈ out → ∃ time, .sent seq time ∈ out ∧ came < time + o.timeout
  late : ∀ seq, .timedOut seq ∈ out → seq < c.turn ∧ ∀ time, .sent seq time ∈ out →
    time + o.timeout ≤ c.now ∧ ∀ slot came, .arrived seq slot came ∈ out → time + o.timeout ≤ came

theorem Timed.of_quiet (h : Timed o c out) (hnow : c.now ≤ t.now)
    (hpings : c.pings.length ≤ t.pings.length) (hturn : c.turn ≤ t.turn)
    (hwaiting : ∀ deadline, t.phase = .waiting deadline →
      c.phase = .waiting deadline ∧ t.seq = c.seq ∧ (t.buffer = [] → t.now < deadline))
    (hnew : ∀ x ∈ new, x.IsAnswer) : Timed o t (out ++ new) := by
  have hold : ∀ {x}, x ∈ out ++ new → ¬x.IsAnswer → x ∈ out :=
    fun hx hno => (List.mem_append.mp hx).resolve_right fun hmem => hno (hnew _ hmem)
  refine ⟨fun seq time hmem => (h.sent_le seq time (hold hmem id)).trans hpings, ?_, ?_, ?_⟩
  · intro deadline hphase
    obtain ⟨hphase, hseq, hnow⟩ := hwaiting deadline hphase
    obtain ⟨⟨time, hsent⟩, hdeadline, -⟩ := h.waiting deadline hphase
    rw [hseq]
    exact ⟨⟨time, List.mem_append_left _ hsent⟩, fun time hmem => hdeadline time (hold hmem id), hnow⟩
  · intro seq came hmem
    obtain ⟨time, hsent, hlt⟩ := h.own seq came (hold hmem id)
    exact ⟨time, List.mem_append_left _ hsent, hlt⟩
  · intro seq hmem
    obtain ⟨hseq, hlate⟩ := h.late seq (hold hmem id)
    refine ⟨hseq.trans_le hturn, fun time hsent => ?_⟩
    obtain ⟨hdue, hcame⟩ := hlate time (hold hsent id)
    exact ⟨hdue.trans hnow, fun slot came harrived => hcame slot came (hold harrived id)⟩

theorem Timed.send (h : Timed o c out) (hplaced : c.Placed o) (hphase : c.phase = .sending)
    (ping : Bytes) :
    Timed o { c with pings := c.pings ++ [ping], phase := .waiting (c.now + o.timeout) }
      (out ++ [.sent c.seq c.now]) := by
  have hlength := hplaced.sending hphase
  have hturn := turn_sending hphase
  have hsent : ∀ {seq time}, .sent seq time ∈ out ++ [.sent c.seq c.now] →
      .sent seq time ∈ out ∧ seq < c.seq ∨ seq = c.seq ∧ time = c.now := by
    intro seq time hmem
    rcases List.mem_append.mp hmem with hmem | hmem
    · have hle := h.sent_le seq time hmem
      exact Or.inl ⟨hmem, by omega⟩
    · exact Or.inr (by simpa using hmem)
  refine ⟨fun seq time hmem => ?_, fun deadline hwaiting => ?_, fun seq came hmem => ?_,
    fun seq hmem => ?_⟩
  · rw [List.length_append, List.length_singleton, hlength]
    exact (hsent hmem).elim (fun hold => hold.2.le) fun hnew => hnew.1.le
  · obtain rfl : c.now + o.timeout = deadline := Phase.waiting.inj hwaiting
    refine ⟨⟨c.now, List.mem_append_right _ List.mem_cons_self⟩, fun time hmem => ?_, fun _ => ?_⟩
    · rcases hsent hmem with ⟨-, hlt⟩ | ⟨-, rfl⟩
      · exact absurd hlt (Nat.lt_irrefl _)
      · rfl
    · exact Nat.lt_add_of_pos_right o.zero_lt_timeout
  · obtain ⟨time, hold, hlt⟩ := h.own seq came (by simpa using hmem)
    exact ⟨time, List.mem_append_left _ hold, hlt⟩
  · obtain ⟨hseq, hlate⟩ := h.late seq (by simpa using hmem)
    refine ⟨hturn ▸ hseq, fun time hmem => ?_⟩
    rcases hsent hmem with ⟨hold, -⟩ | ⟨rfl, -⟩
    · obtain ⟨hdue, hcame⟩ := hlate time hold
      exact ⟨hdue, fun slot came harrived => hcame slot came (by simpa using harrived)⟩
    · exact absurd hseq hturn.le.not_gt

theorem Timed.arrive (h : Timed o c out) (hplaced : c.Placed o) {d : Datagram}
    (hd : d.ping ≤ c.pings.length) :
    Timed o { c with buffer := c.buffer ++ [d] } (out ++ [.arrived d.ping c.slot c.now]) := by
  refine ⟨fun seq time hmem => h.sent_le seq time (by simpa using hmem), fun deadline hphase => ?_,
    fun seq came hmem => ?_, fun seq hmem => ?_⟩
  · obtain ⟨⟨time, hsent⟩, hdeadline, -⟩ := h.waiting deadline hphase
    refine ⟨⟨time, List.mem_append_left _ hsent⟩, fun time hmem => hdeadline time (by simpa using hmem), ?_⟩
    exact fun hnil => absurd hnil (by simp)
  · rcases List.mem_append.mp hmem with hmem | hmem
    · obtain ⟨time, hsent, hlt⟩ := h.own seq came hmem
      exact ⟨time, List.mem_append_left _ hsent, hlt⟩
    · obtain ⟨rfl, hslot, rfl⟩ : seq = d.ping ∧ seq = c.slot ∧ came = c.now := by simpa using hmem
      have hle := hplaced.bounds.2.1
      have hslot : d.ping = c.turn + c.buffer.length := hslot
      obtain ⟨deadline, hphase⟩ := hplaced.waiting_of_length (by omega)
      obtain ⟨⟨time, hsent⟩, hdeadline, hnow⟩ := h.waiting deadline hphase
      have hbuffer : c.buffer = [] := List.eq_nil_of_length_eq_zero (by omega)
      have hseq : d.ping = c.seq := by rw [← turn_waiting hphase]; omega
      exact ⟨time, List.mem_append_left _ (hseq ▸ hsent), hdeadline time hsent ▸ hnow hbuffer⟩
  · obtain ⟨hseq, hlate⟩ := h.late seq (by simpa using hmem)
    refine ⟨hseq, fun time hmem => ?_⟩
    obtain ⟨hdue, hcame⟩ := hlate time (by simpa using hmem)
    refine ⟨hdue, fun slot came harrived => ?_⟩
    rcases List.mem_append.mp harrived with harrived | harrived
    · exact hcame slot came harrived
    · obtain ⟨-, -, rfl⟩ : seq = d.ping ∧ slot = c.slot ∧ came = c.now := by simpa using harrived
      exact hdue

theorem Queued.arrived_notMem (h : Queued c out) {deadline : Nat} (hphase : c.phase = .waiting deadline)
    (hbuffer : c.buffer = []) (slot came : Nat) : .arrived c.seq slot came ∉ out := by
  intro hmem
  rcases h.of_arrived hmem with hreply | hpending
  · have hle := h.causal c.seq slot came hmem
    have hlt := h.read_lt slot c.seq hreply
    rw [turn_waiting hphase] at hlt
    omega
  · rw [Client.pending, hbuffer] at hpending
    cases hpending

theorem Timed.timeOut (h : Timed o c out) (hqueued : Queued c out) {deadline now : Nat}
    (hphase : c.phase = .waiting deadline) (hbuffer : c.buffer = []) (hnow : c.now ≤ now)
    (hdeadline : deadline ≤ now) :
    Timed o (({ c with now := now, lost := c.lost + 1 } : Client).finish o deadline)
      (out ++ [.timedOut c.seq]) := by
  obtain ⟨hnow', -, -, -, hpings, -⟩ :=
    finish_frame o ({ c with now := now, lost := c.lost + 1 } : Client) deadline
  refine ⟨fun seq time hmem => ?_, fun deadline' hwaiting => ?_, fun seq came hmem => ?_,
    fun seq hmem => ?_⟩
  · rw [hpings]
    exact h.sent_le seq time (by simpa using hmem)
  · exact absurd hwaiting (finish_not_waiting deadline deadline')
  · obtain ⟨time, hsent, hlt⟩ := h.own seq came (by simpa using hmem)
    exact ⟨time, List.mem_append_left _ hsent, hlt⟩
  · rw [turn_finish, hnow']
    have hturn := turn_waiting hphase
    rcases List.mem_append.mp hmem with hmem | hmem
    · obtain ⟨hseq, hlate⟩ := h.late seq hmem
      refine ⟨by dsimp only; omega, fun time hmem => ?_⟩
      obtain ⟨hdue, hcame⟩ := hlate time (by simpa using hmem)
      exact ⟨hdue.trans hnow, fun slot came harrived => hcame slot came (by simpa using harrived)⟩
    · obtain rfl : seq = c.seq := by simpa using hmem
      refine ⟨Nat.lt_succ_self _, fun time hmem => ?_⟩
      have hdue := (h.waiting deadline hphase).2.1 time (by simpa using hmem)
      refine ⟨hdue ▸ hdeadline, fun slot came harrived => ?_⟩
      exact absurd (by simpa using harrived) (hqueued.arrived_notMem hphase hbuffer slot came)

theorem Timed.read (h : Timed o c out) {deadline : Nat} (hphase : c.phase = .waiting deadline)
    (hnow : t.now = c.now) (hseq : t.seq = c.seq) (hpings : t.pings = c.pings)
    (hnew : ∀ x ∈ new, x.IsAnswer) : Timed o (t.finish o c.now) (out ++ new) := by
  obtain ⟨hnow', -, -, -, hpings', -⟩ := finish_frame o t c.now
  refine h.of_quiet (hnow'.trans hnow).ge ?_ ?_ (fun deadline' hwaiting => ?_) hnew
  · rw [hpings', hpings]
  · rw [turn_finish, hseq, turn_waiting hphase]
    exact Nat.le_succ _
  · exact absurd hwaiting (finish_not_waiting _ deadline')

theorem Timed.step (h : Timed o c out) (hplaced : c.Placed o) (hgenuine : Genuine o [] c)
    (hqueued : Queued c out) (hmoves : ClientMoves o c i t new) : Timed o t (out ++ new) := by
  cases hmoves with
  | lapses hnow hdeadline =>
    refine h.of_quiet hnow (Nat.le_refl _) (Nat.le_refl _) (fun deadline hphase => ?_) (by simp)
    exact ⟨hphase, rfl, fun hbuffer => hdeadline deadline hphase hbuffer
      ((h.waiting deadline hphase).2.2 hbuffer)⟩
  | timesOut hphase hbuffer hnow hdeadline => exact h.timeOut hqueued hphase hbuffer hnow hdeadline
  | sends tsMs hphase => exact h.send hplaced hphase _
  | reaches =>
    refine h.of_quiet (Nat.le_refl _) (Nat.le_refl _) (Nat.le_refl _) (fun deadline hphase => ?_)
      (by simp)
    exact ⟨hphase, rfl, (h.waiting deadline hphase).2.2⟩
  | arrives _ hd => exact h.arrive hplaced (hgenuine.echoes _ (List.mem_of_getElem? hd)).1
  | receives hphase => exact h.read hphase rfl rfl rfl (by simp [ClientOutput.IsAnswer])
  | rejects hphase => exact h.read hphase rfl rfl rfl (by simp [ClientOutput.IsAnswer])
  | wakes hphase =>
    refine h.of_quiet (Nat.le_refl _) (Nat.le_refl _) ?_ (fun deadline hwaiting => ?_) (by simp)
    · rw [turn_advance, turn_sleeping hphase]
    · exact absurd hwaiting (advance_not_waiting deadline)

/-! ## Iterations that are over -/

def ClientOutput.loss : ClientOutput → Option Nat
  | .timedOut seq => some seq
  | _ => none

/-- An iteration that is over has a reply or a timeout, and the timeouts are counted. -/
structure Settled (c : Client) (out : List ClientOutput) : Prop where
  one_le : ∀ seq, .timedOut seq ∈ out → 1 ≤ seq
  ended : ∀ seq, 1 ≤ seq → seq < c.turn → .timedOut seq ∈ out ∨ ∃ respSeq, .reply seq respSeq ∈ out
  lost : c.lost = (out.filterMap (·.loss)).length
  nodup : (out.filterMap (·.loss)).Nodup

theorem mem_losses {seq : Nat} : seq ∈ out.filterMap (·.loss) ↔ .timedOut seq ∈ out := by
  rw [List.mem_filterMap]
  constructor
  · rintro ⟨x, hx, hloss⟩
    cases x with
    | timedOut k => exact Option.some.inj hloss ▸ hx
    | _ => cases hloss
  · exact fun h => ⟨_, h, rfl⟩

theorem Settled.of_quiet (h : Settled c out) (hturn : t.turn = c.turn)
    (hlost : t.lost = c.lost) (hnew : ∀ x ∈ new, x.loss = none) : Settled t (out ++ new) := by
  have hlosses : (out ++ new).filterMap (·.loss) = out.filterMap (·.loss) := by
    rw [List.filterMap_append, List.filterMap_eq_nil_iff.mpr hnew, List.append_nil]
  refine ⟨fun seq hmem => ?_, fun seq hpos hlt => ?_, ?_, ?_⟩
  · rw [← mem_losses, hlosses, mem_losses] at hmem
    exact h.one_le seq hmem
  · rw [hturn] at hlt
    exact (h.ended seq hpos hlt).imp (List.mem_append_left _)
      (Exists.imp fun _ => List.mem_append_left _)
  · rw [hlost, hlosses, h.lost]
  · rw [hlosses]
    exact h.nodup

theorem Settled.timeOut (h : Settled c out) (hplaced : c.Placed o) (htimed : Timed o c out)
    {deadline now : Nat} (hphase : c.phase = .waiting deadline) :
    Settled (({ c with now := now, lost := c.lost + 1 } : Client).finish o deadline)
      (out ++ [.timedOut c.seq]) := by
  obtain ⟨-, -, hlost, -, -, -⟩ :=
    finish_frame o ({ c with now := now, lost := c.lost + 1 } : Client) deadline
  have hturn := turn_waiting hphase
  have hlosses : (out ++ [ClientOutput.timedOut c.seq]).filterMap (·.loss) =
      out.filterMap (·.loss) ++ [c.seq] := by
    rw [List.filterMap_append]
    rfl
  refine ⟨fun seq hmem => ?_, fun seq hpos hlt => ?_, ?_, ?_⟩
  · rcases List.mem_append.mp hmem with hmem | hmem
    · exact h.one_le seq hmem
    · obtain rfl : seq = c.seq := by simpa using hmem
      exact (hplaced.waiting hphase).1
  · rw [turn_finish] at hlt
    rcases Nat.lt_succ_iff_lt_or_eq.mp hlt with hlt | rfl
    · exact (h.ended seq hpos (hturn ▸ hlt)).imp (List.mem_append_left _)
        (Exists.imp fun _ => List.mem_append_left _)
    · exact Or.inl (List.mem_append_right _ List.mem_cons_self)
  · rw [hlost, hlosses, List.length_append, h.lost]
    rfl
  · rw [hlosses, List.nodup_append]
    refine ⟨h.nodup, List.nodup_singleton _, ?_⟩
    rintro seq hmem _ hnew rfl
    obtain rfl := List.mem_singleton.mp hnew
    have hlt := (htimed.late _ (mem_losses.mp hmem)).1
    omega

theorem Settled.reply (o : Options) (h : Settled c out) {deadline : Nat} (hphase : c.phase = .waiting deadline)
    (hseq : t.seq = c.seq) (hlost : t.lost = c.lost) (respSeq : Int) :
    Settled (t.finish o c.now) (out ++ [.reply c.seq respSeq]) := by
  obtain ⟨-, -, hlost', -, -, -⟩ := finish_frame o t c.now
  have hlosses : (out ++ [ClientOutput.reply c.seq respSeq]).filterMap (·.loss) =
      out.filterMap (·.loss) := by
    rw [List.filterMap_append]
    exact List.append_nil _
  refine ⟨fun seq hmem => h.one_le seq (by simpa using hmem), fun seq hpos hlt => ?_, ?_, ?_⟩
  · rw [turn_finish, hseq] at hlt
    rcases Nat.lt_succ_iff_lt_or_eq.mp hlt with hlt | rfl
    · exact (h.ended seq hpos (turn_waiting hphase ▸ hlt)).imp (List.mem_append_left _)
        (Exists.imp fun _ => List.mem_append_left _)
    · exact Or.inr ⟨respSeq, List.mem_append_right _ List.mem_cons_self⟩
  · rw [hlost', hlost, hlosses, h.lost]
  · rw [hlosses]
    exact h.nodup

theorem Settled.step (h : Settled c out) (hplaced : c.Placed o) (hgenuine : Genuine o [] c)
    (htimed : Timed o c out) (hmoves : ClientMoves o c i t new) : Settled t (out ++ new) := by
  cases hmoves with
  | lapses => exact h.of_quiet rfl rfl (by simp)
  | timesOut hphase => exact h.timeOut hplaced htimed hphase
  | sends tsMs hphase =>
    refine h.of_quiet ?_ rfl (by simp [ClientOutput.loss])
    rw [Client.turn, Client.turn, hphase]
  | reaches => exact h.of_quiet rfl rfl (by simp)
  | arrives => exact h.of_quiet rfl rfl (by simp [ClientOutput.loss])
  | receives hphase =>
    apply h.reply o hphase
    · rfl
    · rfl
  | @rejects deadline d buffer hphase hbuffer hparse =>
    obtain ⟨tsMs, hping⟩ := hgenuine.parse_head hbuffer
    cases hparse.symm.trans hping
  | wakes hphase =>
    refine h.of_quiet ?_ rfl (by simp)
    rw [turn_advance, turn_sleeping hphase]

/-! ## Runs -/

variable (o) in
structure Known (c : Client) (out : List ClientOutput) : Prop where
  placed : c.Placed o
  genuine : Genuine o [] c
  queued : Queued c out
  timed : Timed o c out
  settled : Settled c out

theorem Known.init : Known o .init [] where
  placed := ⟨Nat.le_refl 1, o.count_pos, rfl⟩
  genuine := ⟨by simp [Client.init], by simp [Client.init], by simp [Client.init]⟩
  queued := ⟨rfl, by simp, by simp⟩
  timed := ⟨by simp, by simp [Client.init], by simp, by simp⟩
  settled := ⟨by simp, fun seq hpos hlt => absurd hlt (Nat.not_lt.mpr hpos), rfl, List.nodup_nil⟩

theorem Known.step (h : Known o c out) (hmoves : ClientMoves o c i t new) : Known o t (out ++ new) where
  placed := h.placed.step hmoves
  genuine := h.genuine.step h.placed hmoves
  queued := h.queued.step h.placed h.genuine hmoves
  timed := h.timed.step h.placed h.genuine h.queued hmoves
  settled := h.settled.step h.placed h.genuine h.timed hmoves

variable (o) in
theorem known_run (inputs : List ClientInput) :
    Known o ((client o).run .init inputs).1 ((client o).run .init inputs).2 :=
  (client o).run_induction Known.init (fun _ i _ h => h.step (clientStep_moves o _ i)) inputs
    (List.prefix_refl _)

/-! ## The theorem -/

variable (o) in
/-- The ping's own echo arrived within its timeout. -/
def InTime (out : List ClientOutput) (seq : Nat) : Prop :=
  ∃ time slot came, .sent seq time ∈ out ∧ .arrived seq slot came ∈ out ∧ came < time + o.timeout

variable (o) in
/-- The replies are those to the pings of their iterations, and the pings that are lost are those of
the iterations behind whose own echo did not arrive in time. -/
structure Matched (c : Client) (out : List ClientOutput) : Prop where
  replies : ∀ (seq : Nat) (respSeq : Int), .reply seq respSeq ∈ out → respSeq = seq
  lost : c.lost = {seq | 1 ≤ seq ∧ seq < c.turn ∧ ¬InTime o out seq}.ncard

variable (o) in
/-- An echo that arrives finds its ping waited for and nothing unread, or so much that no iteration is
left for it. -/
def Client.Due (c : Client) : ClientInput → Prop
  | .arrive k => ∀ d, c.echoes[k]? = some d → d.ping = c.slot ∨ o.count < c.slot
  | _ => True

theorem Known.matched (h : Known o c out)
    (hreplies : ∀ (seq : Nat) (respSeq : Int), .reply seq respSeq ∈ out → respSeq = seq) :
    Matched o c out := by
  refine ⟨hreplies, ?_⟩
  have hset : {seq | 1 ≤ seq ∧ seq < c.turn ∧ ¬InTime o out seq} =
      ((out.filterMap (·.loss)).toFinset : Set Nat) := by
    ext seq
    rw [List.coe_toFinset, Set.mem_ofPred_eq, Set.mem_ofPred_eq, mem_losses]
    constructor
    · rintro ⟨hpos, hlt, hnot⟩
      refine (h.settled.ended seq hpos hlt).resolve_right ?_
      rintro ⟨respSeq, hreply⟩
      obtain ⟨ping, came, hping, harrived⟩ := h.queued.exists_arrived hreply
      obtain rfl : ping = seq := Int.ofNat.inj (hping.trans (hreplies seq respSeq hreply))
      obtain ⟨time, hsent, hbefore⟩ := h.timed.own ping came harrived
      exact hnot ⟨time, ping, came, hsent, harrived, hbefore⟩
    · intro hmem
      obtain ⟨hlt, hlate⟩ := h.timed.late seq hmem
      refine ⟨h.settled.one_le seq hmem, hlt, ?_⟩
      rintro ⟨time, slot, came, hsent, harrived, hbefore⟩
      exact absurd hbefore (Nat.not_lt.mpr ((hlate time hsent).2 slot came harrived))
  rw [hset, Set.ncard_coe_finset, List.toFinset_card_of_nodup h.settled.nodup, h.settled.lost]

theorem arrived_mem_step {ping slot came : Nat} :
    .arrived ping slot came ∈ (c.step o i).2 ↔
      ∃ k d, i = .arrive k ∧ c.echoes[k]? = some d ∧ d.ping = ping ∧ c.slot = slot ∧ c.now = came := by
  constructor
  · intro hmem
    have hmoves := clientStep_moves o c i
    generalize (c.step o i).1 = t, (c.step o i).2 = new at hmoves hmem
    cases hmoves with
    | @arrives k d hi hd =>
      obtain ⟨rfl, rfl, rfl⟩ : ping = d.ping ∧ slot = c.slot ∧ came = c.now := by simpa using hmem
      exact ⟨k, d, hi, hd, rfl, rfl, rfl⟩
    | _ => simp at hmem
  · rintro ⟨k, d, rfl, hd, rfl, rfl, rfl⟩
    rw [Client.step, hd]
    exact List.mem_cons_self

/-- **Matching.** If each echo that arrives is due, every reply is the echo of the ping of its iteration,
and what is lost are the pings whose own echo did not arrive in time. And behind a run in which the
client came to its end this holds only if each echo was due. -/
theorem matched_iff (o : Options) (inputs : List ClientInput) :
    ((∀ front i, front ++ [i] <+: inputs → ((client o).run .init front).1.Due o i) →
      ∀ front, front <+: inputs →
        Matched o ((client o).run .init front).1 ((client o).run .init front).2) ∧
    (((client o).run .init inputs).1.phase = .done →
      Matched o ((client o).run .init inputs).1 ((client o).run .init inputs).2 →
      ∀ front i, front ++ [i] <+: inputs → ((client o).run .init front).1.Due o i) := by
  constructor
  · intro hdue front hle
    have hknown := known_run o front
    refine hknown.matched fun seq respSeq hreply => ?_
    obtain ⟨ping, came, rfl, harrived⟩ := hknown.queued.exists_arrived hreply
    obtain ⟨front', i, hle', hstep⟩ := (client o).mem_run_iff.mp harrived
    obtain ⟨k, d, rfl, hd, rfl, rfl, -⟩ := arrived_mem_step.mp hstep
    have hover := hknown.queued.read_lt _ _ hreply
    have hbounds := hknown.placed.bounds
    rcases hdue front' _ (hle'.trans hle) d hd with hslot | hslot
    · rw [hslot]
    · omega
  · rintro hdone hmatched front (_ | _ | _ | k | _ | _) hle
    case arrive =>
      intro d hd
      have hknown := known_run o inputs
      have harrived : .arrived d.ping ((client o).run .init front).1.slot
          ((client o).run .init front).1.now ∈ ((client o).run .init inputs).2 :=
        (client o).mem_run_iff.mpr ⟨front, _, hle, arrived_mem_step.mpr ⟨k, d, rfl, hd, rfl, rfl, rfl⟩⟩
      rcases hknown.queued.of_arrived harrived with hreply | hpending
      · exact Or.inl (Int.ofNat.inj (hmatched.replies _ _ hreply))
      · have hturn := List.le_snd_of_mem_zipIdx hpending
        rw [hknown.placed.turn_of_done hdone] at hturn
        exact Or.inr hturn
    all_goals trivial

/-- Two pings, and no pause between them. -/
def twoPings : Options :=
  { heartbeatMode := false, count := 2, timeoutMs := 1000, intervalMs := 0, count_pos := by decide,
    count_lt := by decide, timeout_pos := by decide }

/-- The echo of the first ping comes when the second is waited for. -/
theorem late_echo : ¬ ∀ (o : Options) (inputs : List ClientInput),
    Matched o ((client o).run .init inputs).1 ((client o).run .init inputs).2 := by
  intro h
  have hmatched := h twoPings [.send 0, .reach 0, .pass second, .send 1, .arrive 0, .recv]
  exact absurd (hmatched.replies 2 1 (by decide)) (by decide)

end Pinger
