import ComputerNetworks.Rdtp.Clock
import ComputerNetworks.Rdtp.Delivery

/-!
# When packets go out again

The transfer with the sender's clock. It does what the transfer without a clock can do, and no packet at the
front of the window goes out again before its time.
-/

open Lib Lib.Channel

namespace Rdtp

variable {Addr : Type}

/-! ## The transfer with a clock -/

structure TimedState (Addr : Type) where
  timed : TimedSender
  receiver : Receiver Addr
  toReceiver : List (Addr × Bytes)
  toSender : List (Addr × Bytes)
  history : History

def TimedState.untimed (s : TimedState Addr) : State Addr :=
  ⟨s.timed.untimed, s.receiver, s.toReceiver, s.toSender, s.history⟩

/-- Everything but the sender is as told. -/
def TimedState.around (timed : TimedSender) (s : State Addr) : TimedState Addr :=
  ⟨timed, s.receiver, s.toReceiver, s.toSender, s.history⟩

section Transfer

variable (clock : Clock) (cfg : Config Addr)

def TimedState.senderMoved (s : TimedState Addr) (input : Option Bytes) (t : TimedSender)
    (sent : List Bytes) : TimedState Addr :=
  .around t (s.untimed.senderMoved cfg input t.untimed sent)

def TimedState.receiverMoved (s : TimedState Addr) (source : Addr) (datagram : Bytes) : TimedState Addr :=
  .around s.timed (s.untimed.receiverMoved source datagram)

inductive TimedStep : TimedState Addr → TimedState Addr → Prop where
  | senderAlone {s : TimedState Addr} {t : TimedSender} {sent : List Bytes} :
      TimedMove clock cfg.opt s.timed none t sent → TimedStep s (s.senderMoved cfg none t sent)
  | senderTakes {s : TimedState Addr} {t : TimedSender} {sent : List Bytes} {b : Bytes}
      {rest : List (Addr × Bytes)} :
      Takes s.toSender (cfg.senderAddr, b) rest → TimedMove clock cfg.opt s.timed (some b) t sent →
      TimedStep s ({ s with toSender := rest }.senderMoved cfg (some b) t sent)
  | senderNoise {s : TimedState Addr} {t : TimedSender} {sent : List Bytes} {b : Bytes} :
      cfg.noise b → TimedMove clock cfg.opt s.timed (some b) t sent →
      TimedStep s (s.senderMoved cfg (some b) t sent)
  | receiverTakes {s : TimedState Addr} {source : Addr} {b : Bytes} {rest : List (Addr × Bytes)} :
      s.receiver.finished = false → Takes s.toReceiver (source, b) rest →
      TimedStep s ({ s with toReceiver := rest }.receiverMoved source b)
  | receiverNoise {s : TimedState Addr} (source : Addr) {b : Bytes} :
      s.receiver.finished = false → parsePacket (recvfrom receiverBuf b) = none →
      TimedStep s (s.receiverMoved source b)
  | faultToReceiver {s : TimedState Addr} {c : List (Addr × Bytes)} :
      Fault s.toReceiver c → TimedStep s { s with toReceiver := c }
  | faultToSender {s : TimedState Addr} {c : List (Addr × Bytes)} :
      Fault s.toSender c → TimedStep s { s with toSender := c }

def timedTransfer : System (TimedState Addr) where
  init s := s = ⟨.fresh cfg.file, .fresh, [], [], ⟨[], []⟩⟩
  step := TimedStep clock cfg

end Transfer

variable {clock : Clock} {cfg : Config Addr}

theorem senderMoved_nothing (s : State Addr) : s.senderMoved cfg none s.sender [] = s := by
  rw [State.senderMoved, List.map_nil, List.append_nil]

theorem TimedStep.leads {s t : TimedState Addr} (h : TimedStep clock cfg s t) :
    (transfer cfg).Leads s.untimed t.untimed := by
  cases h with
  | @senderAlone t sent hm =>
    rcases hm.untimed with hm | ⟨-, rfl, hsame⟩
    · exact .of_step (.senderAlone hm)
    · have hstays : (s.senderMoved cfg none t []).untimed = s.untimed := by
        change s.untimed.senderMoved cfg none t.untimed [] = s.untimed
        rw [hsame]
        exact senderMoved_nothing s.untimed
      rw [hstays]
      exact .refl _
  | senderTakes htake hm =>
    rcases hm.untimed with hm | ⟨hnone, -⟩
    · exact .of_step (.senderTakes htake hm)
    · cases hnone
  | senderNoise hnoise hm =>
    rcases hm.untimed with hm | ⟨hnone, -⟩
    · exact .of_step (.senderNoise hnoise hm)
    · cases hnone
  | receiverTakes hopen htake => exact .of_step (.receiverTakes hopen htake)
  | receiverNoise source hopen hrefused => exact .of_step (.receiverNoise source hopen hrefused)
  | faultToReceiver hfault => exact .of_step (.faultToReceiver hfault)
  | faultToSender hfault => exact .of_step (.faultToSender hfault)

theorem reachable_untimed {s : TimedState Addr} (h : (timedTransfer clock cfg).Reachable s) :
    (transfer cfg).Reachable s.untimed := by
  refine h.simulated TimedState.untimed ?_ fun _ _ _ hs => TimedStep.leads hs
  rintro _ rfl
  rfl

/-- **Refinement.** With its timers, the transfer goes through states that it can go through without them.
So if the segments of the file have numbers of their own, then whatever the clock does, the output is a front
of the file, and all of it at the end. -/
theorem timed_transfer_refines (clock : Clock) (cfg : Config Addr) (s : TimedState Addr)
    (h : (timedTransfer clock cfg).Reachable s) :
    (transfer cfg).Reachable s.untimed ∧
      (cfg.Fits → s.receiver.out <+: cfg.file ∧
        (s.receiver.finished = true → s.receiver.out = cfg.file)) := by
  have hs := reachable_untimed h
  refine ⟨hs, fun hfit => ?_⟩
  have hsound := reachable_sound hfit hs
  refine ⟨?_, hsound.finished_out⟩
  have hout : s.receiver.out = cfg.prefixOf s.receiver.expected.toNat := hsound.receiver.out
  rw [hout]
  exact prefixOf_prefix cfg _

/-! ## The order of the times -/

/-- The packets at the front of the window went out first, and all of them by now. -/
structure Ordered (window : List TimedInFlight) (now : Nat) : Prop where
  sorted : window.Pairwise fun p q => p.lastSendMs.toNat ≤ q.lastSendMs.toNat
  past : ∀ p ∈ window, p.lastSendMs.toNat ≤ now

theorem Ordered.mono {window : List TimedInFlight} {now later : Nat} (h : Ordered window now)
    (hle : now ≤ later) : Ordered window later :=
  ⟨h.sorted, fun p hp => (h.past p hp).trans hle⟩

theorem Ordered.push {window : List TimedInFlight} {now : Nat} (h : Ordered window now)
    {p : TimedInFlight} (hp : p.lastSendMs.toNat = now) : Ordered (window ++ [p]) now := by
  refine ⟨List.pairwise_append.mpr ⟨h.sorted, List.pairwise_singleton _ p, ?_⟩, ?_⟩
  · intro q hq r hr
    rw [List.mem_singleton.mp hr, hp]
    exact h.past q hq
  · intro q hq
    rcases List.mem_append.mp hq with hq | hq
    · exact h.past q hq
    · rw [List.mem_singleton.mp hq, hp]

theorem Ordered.popTimed {window : List TimedInFlight} {now : Nat} (h : Ordered window now)
    (ackno : UInt32) (base : UInt32) : Ordered (popTimed ackno window base).1 now := by
  induction window generalizing base with
  | nil => exact h
  | cons p window ih =>
    rw [Rdtp.popTimed]
    split
    · exact ih ⟨h.sorted.of_cons, fun q hq => h.past q (List.mem_cons_of_mem p hq)⟩ _
    · exact h

theorem ordered_resend (window : List TimedInFlight) (calls : Nat) :
    (∀ p ∈ resend clock calls window, (clock.reading calls).toNat ≤ p.lastSendMs.toNat) ∧
      Ordered (resend clock calls window) (clock.reading (calls + window.length)).toNat := by
  induction window generalizing calls with
  | nil => exact ⟨nofun, .nil, nofun⟩
  | cons p window ih =>
    obtain ⟨hlow, hsorted, hpast⟩ := ih (calls + 1)
    have hnext : (clock.reading calls).toNat ≤ (clock.reading (calls + 1)).toNat :=
      clock.steady (Nat.le_succ calls)
    have hlength : calls + 1 + window.length = calls + (p :: window).length := by
      rw [List.length_cons]
      omega
    rw [hlength] at hpast
    refine ⟨List.forall_mem_cons.mpr ⟨le_rfl, fun q hq => hnext.trans (hlow q hq)⟩, ?_, ?_⟩
    · exact List.pairwise_cons.mpr ⟨fun q hq => hnext.trans (hlow q hq), hsorted⟩
    · exact List.forall_mem_cons.mpr ⟨clock.steady (Nat.le_add_right calls _), hpast⟩

/-- The times of a sender, against its clock. -/
structure TimedSender.Paced (clock : Clock) (s : TimedSender) : Prop where
  window : Ordered s.window (clock.reading s.calls).toNat
  lastFin : s.lastFinSend.toNat ≤ (clock.reading s.calls).toNat
  selecting : s.selecting = true → s.phase = .fin
  /-- In `select`, the last call of `now_ms` was the one of the check. -/
  checked : s.selecting = true →
    0 < s.calls ∧ s.lastFinSend.toNat ≤ (clock.reading (s.calls - 1)).toNat

/-- What a move makes of the times. -/
structure Timely (opt : Options) (s t : TimedSender) : Prop where
  retransmits : t.retransmits ≠ s.retransmits → ∃ p ps q qs, s.window = p :: ps ∧ t.window = q :: qs ∧
    q.packet = p.packet ∧ p.lastSendMs.toNat + opt.timeoutMs.toNat ≤ q.lastSendMs.toNat
  fin : t.lastFinSend ≠ s.lastFinSend →
    s.lastFinSend.toNat + opt.timeoutMs.toNat ≤ t.lastFinSend.toNat

theorem Timely.of_same {opt : Options} {s t : TimedSender} (hretransmits : t.retransmits = s.retransmits)
    (hfin : t.lastFinSend = s.lastFinSend) : Timely opt s t :=
  ⟨fun hne => absurd hretransmits hne, fun hne => absurd hfin hne⟩

section Paced

variable {opt : Options} {s : TimedSender}

theorem TimedSender.Paced.idle (h : s.Paced clock) (hp : s.phase ≠ .fin) : s.selecting = false :=
  Bool.eq_false_iff.mpr fun hs => hp (h.selecting hs)

theorem TimedSender.Paced.later (h : s.Paced clock) {calls : Nat} (hle : s.calls ≤ calls)
    (hno : s.selecting = false) : TimedSender.Paced clock { s with calls } := by
  have hsteady : (clock.reading s.calls).toNat ≤ (clock.reading calls).toNat := clock.steady hle
  exact ⟨h.window.mono hsteady, h.lastFin.trans hsteady, h.selecting, fun hs => by
    rw [show s.selecting = true from hs] at hno
    cases hno⟩

theorem fill_paced (sent : List Bytes) (h : s.Paced clock) (hno : s.selecting = false) :
    (s.fill clock opt sent).1.Paced clock ∧ (s.fill clock opt sent).1.selecting = false ∧
      (s.fill clock opt sent).1.retransmits = s.retransmits ∧
      (s.fill clock opt sent).1.lastFinSend = s.lastFinSend := by
  induction s, sent using TimedSender.fill.induct clock opt with
  | case1 s sent hgoes payload hnil =>
    rw [TimedSender.fill, if_pos hgoes, if_pos hnil]
    exact ⟨⟨h.window, h.lastFin, h.selecting, h.checked⟩, hno, rfl, rfl⟩
  | case2 s sent hgoes payload hnil ih =>
    rw [TimedSender.fill, if_pos hgoes, if_neg hnil]
    have hlater := h.later (Nat.le_succ s.calls) hno
    have hpush : Ordered (s.push clock opt payload).window (clock.reading (s.calls + 1)).toNat :=
      (h.window.push rfl).mono (clock.steady (Nat.le_succ s.calls))
    exact ih ⟨hpush, hlater.lastFin, hlater.selecting, hlater.checked⟩ hno
  | case3 s sent hstays =>
    rw [TimedSender.fill, if_neg hstays]
    exact ⟨h, hno, rfl, rfl⟩

theorem timeout_toNat (h : s.Paced clock) {p : TimedInFlight} {ps : List TimedInFlight}
    (hwindow : s.window = p :: ps) : (s.timeout clock opt).toNat =
      opt.timeoutMs.toNat - ((clock.reading s.calls).toNat - p.lastSendMs.toNat) := by
  have hpast : p.lastSendMs.toNat ≤ (clock.reading s.calls).toNat :=
    h.window.past p (hwindow ▸ List.mem_cons_self)
  have helapsed : (clock.reading s.calls - p.lastSendMs).toNat =
      (clock.reading s.calls).toNat - p.lastSendMs.toNat :=
    UInt64.toNat_sub_of_le _ _ (UInt64.le_iff_toNat_le.mpr hpast)
  rw [TimedSender.timeout, hwindow]
  dsimp only
  by_cases hover : opt.timeoutMs ≤ clock.reading s.calls - p.lastSendMs
  · rw [if_pos hover]
    rw [UInt64.le_iff_toNat_le, helapsed] at hover
    rw [Nat.sub_eq_zero_of_le hover]
    rfl
  · rw [if_neg hover, UInt64.toNat_sub_of_le _ _ (UInt64.le_of_lt (UInt64.not_le.mp hover)), helapsed]

theorem callsSelected_le (s : TimedSender) : s.calls ≤ s.callsSelected := by
  unfold TimedSender.callsSelected
  split
  · exact le_rfl
  · exact Nat.le_succ _

theorem onTimeout_timely (h : s.Paced clock)
    (htime : s.window ≠ [] →
      clock.Elapsed s.calls s.callsSelected (msToTimeval (s.timeout clock opt))) :
    Timely opt s (s.selected.onTimeout clock).1 := by
  refine ⟨fun hne => ?_, fun hne => absurd rfl hne⟩
  cases hwindow : s.window with
  | nil =>
    refine absurd ?_ hne
    change s.retransmits + UInt64.ofNat s.window.length = s.retransmits
    rw [hwindow]
    exact UInt64.add_zero _
  | cons p ps =>
    have hcalls : s.callsSelected = s.calls + 1 := by rw [TimedSender.callsSelected, hwindow]; rfl
    have helapsed := htime (hwindow ▸ List.cons_ne_nil p ps)
    rw [Clock.Elapsed, (msToTimeval_spec _).2, timeout_toNat h hwindow, hcalls] at helapsed
    have hagain : (s.selected.onTimeout clock).1.window =
        ⟨p.packet, clock.reading (s.calls + 1)⟩ :: resend clock (s.calls + 1 + 1) ps := by
      change resend clock s.callsSelected s.window = _
      rw [hcalls, hwindow, resend]
    have hpast : p.lastSendMs.toNat ≤ (clock.reading s.calls).toNat :=
      h.window.past p (hwindow ▸ List.mem_cons_self)
    refine ⟨p, ps, _, _, rfl, hagain, rfl, ?_⟩
    dsimp only
    omega

theorem onDatagram_paced (b : Bytes) (h : s.Paced clock) (hno : s.selecting = false) :
    (s.onDatagram clock opt b).1.Paced clock ∧ (s.onDatagram clock opt b).1.selecting = false ∧
      (s.onDatagram clock opt b).1.retransmits = s.retransmits ∧
      (s.onDatagram clock opt b).1.lastFinSend = s.lastFinSend := by
  have hsame : s.Paced clock ∧ s.selecting = false ∧ s.retransmits = s.retransmits ∧
      s.lastFinSend = s.lastFinSend := ⟨h, hno, rfl, rfl⟩
  unfold TimedSender.onDatagram
  split
  · exact hsame
  · split
    · exact hsame
    · split
      · exact hsame
      · split
        · exact fill_paced [] ⟨h.window.popTimed _ _, h.lastFin, h.selecting, h.checked⟩ hno
        · exact hsame

omit clock in
theorem onFinDatagram_phase (s : TimedSender) (b : Bytes) :
    ∃ phase, s.onFinDatagram b = { s with phase } := by
  unfold TimedSender.onFinDatagram
  split
  · exact ⟨_, rfl⟩
  · split
    · exact ⟨_, rfl⟩
    · exact ⟨_, rfl⟩

theorem TimedMove.paced {t : TimedSender} {input : Option Bytes} {sent : List Bytes} (h : s.Paced clock)
    (hm : TimedMove clock opt s input t sent) : t.Paced clock ∧ Timely opt s t := by
  cases hm with
  | begin hp =>
    obtain ⟨hpaced, hno, hretransmits, hfin⟩ :=
      @fill_paced clock opt _ [] h (h.idle (by rw [hp]; nofun))
    have hidle : ∀ {P : Prop}, (s.fill clock opt []).1.selecting = true → P := fun hs => by
      rw [hno] at hs
      cases hs
    exact ⟨⟨hpaced.window, hpaced.lastFin, hidle, hidle⟩, .of_same hretransmits hfin⟩
  | interrupted hp hloops =>
    exact ⟨h.later (callsSelected_le s) (h.idle (by rw [hp]; nofun)), .of_same rfl rfl⟩
  | timeout hp hloops htime =>
    have hno := h.idle (by rw [hp]; nofun)
    have hlater := h.later ((callsSelected_le s).trans (Nat.le_add_right _ s.window.length)) hno
    refine ⟨⟨?_, hlater.lastFin, h.selecting, hlater.checked⟩, onTimeout_timely h htime⟩
    exact (ordered_resend s.window s.callsSelected).2
  | datagram b hp hloops =>
    have hno := h.idle (by rw [hp]; nofun)
    obtain ⟨hpaced, -, hretransmits, hfin⟩ := onDatagram_paced b (h.later (callsSelected_le s) hno) hno
    exact ⟨hpaced, .of_same hretransmits hfin⟩
  | leave hp hloops =>
    have hidle : ∀ {P : Prop}, s.selecting = true → P := fun hs => by
      rw [h.idle (by rw [hp]; nofun)] at hs
      cases hs
    exact ⟨⟨h.window, h.lastFin, hidle, h.checked⟩, .of_same rfl rfl⟩
  | sendFin hp hselecting hdue =>
    have hlater := h.later (Nat.le_succ s.calls) hselecting
    have hdue : opt.timeoutMs.toNat ≤ (clock.reading s.calls - s.lastFinSend).toNat :=
      UInt64.le_iff_toNat_le.mp (of_decide_eq_true hdue)
    rw [UInt64.toNat_sub_of_le _ _ (UInt64.le_iff_toNat_le.mpr h.lastFin)] at hdue
    refine ⟨⟨hlater.window, clock.steady (Nat.le_succ s.calls), fun _ => hp, fun _ => ?_⟩, ?_, fun _ => ?_⟩
    · exact ⟨Nat.succ_pos _, le_rfl⟩
    · exact fun hne => absurd rfl hne
    · have hlast := h.lastFin
      change s.lastFinSend.toNat + opt.timeoutMs.toNat ≤ (clock.reading s.calls).toNat
      omega
  | waitFin hp hselecting hdue =>
    have hlater := h.later (Nat.le_succ s.calls) hselecting
    exact ⟨⟨hlater.window, hlater.lastFin, fun _ => hp, fun _ => ⟨Nat.succ_pos _, h.lastFin⟩⟩,
      .of_same rfl rfl⟩
  | finInterrupted hp hselecting => exact ⟨⟨h.window, h.lastFin, nofun, nofun⟩, .of_same rfl rfl⟩
  | finTimeout hp hselecting htime => exact ⟨⟨h.window, h.lastFin, nofun, nofun⟩, .of_same rfl rfl⟩
  | finDatagram b hp hselecting =>
    obtain ⟨phase, heq⟩ := onFinDatagram_phase { s with selecting := false } b
    rw [heq]
    exact ⟨⟨h.window, h.lastFin, nofun, nofun⟩, .of_same rfl rfl⟩

end Paced

theorem TimedStep.paced {s t : TimedState Addr} (hstep : TimedStep clock cfg s t)
    (h : s.timed.Paced clock) :
    t.timed.Paced clock ∧ Timely cfg.opt s.timed t.timed := by
  have hsame : s.timed.Paced clock ∧ Timely cfg.opt s.timed s.timed := ⟨h, .of_same rfl rfl⟩
  cases hstep with
  | senderAlone hm => exact hm.paced h
  | senderTakes htake hm => exact hm.paced h
  | senderNoise hnoise hm => exact hm.paced h
  | receiverTakes hopen htake => exact hsame
  | receiverNoise source hopen hrefused => exact hsame
  | faultToReceiver hfault => exact hsame
  | faultToSender hfault => exact hsame

theorem reachable_paced {s : TimedState Addr} (h : (timedTransfer clock cfg).Reachable s) :
    s.timed.Paced clock := by
  refine h.invariant (J := fun _ => True) (I := fun s => s.timed.Paced clock) (fun _ _ => trivial) ?_
    fun s t _ _ hs hst => ?_
  · rintro _ rfl
    exact ⟨⟨.nil, nofun⟩, Nat.zero_le _, nofun, nofun⟩
  · have hst : TimedStep clock cfg s t := hst
    exact (hst.paced hs).1

theorem finDue_of_elapsed {opt : Options} {s : TimedSender} (h : s.Paced clock)
    (hselecting : s.selecting = true)
    (htime : clock.Elapsed (s.calls - 1) s.calls (msToTimeval opt.timeoutMs)) :
    s.finDue clock opt = true := by
  have hlast := (h.checked hselecting).2
  rw [Clock.Elapsed, (msToTimeval_spec _).2] at htime
  refine decide_eq_true (UInt64.le_iff_toNat_le.mpr ?_)
  rw [UInt64.toNat_sub_of_le _ _ (UInt64.le_iff_toNat_le.mpr h.lastFin)]
  omega

/-- **Timers.** In every run: `select` waits exactly until the packet that went out first, the one at the
front of the window, has been under way for the timeout; when packets go out again, it has been; between two
FINs there is a timeout; and when `select` has waited for one, the next FIN is due. -/
theorem retransmission_timing (clock : Clock) (cfg : Config Addr) (s : TimedState Addr)
    (h : (timedTransfer clock cfg).Reachable s) :
    (∀ p ps, s.timed.window = p :: ps →
      (clock.reading s.timed.calls).toNat + (s.timed.timeout clock cfg.opt).toNat =
          max (clock.reading s.timed.calls).toNat (p.lastSendMs.toNat + cfg.opt.timeoutMs.toNat) ∧
        ∀ q ∈ ps, p.lastSendMs.toNat ≤ q.lastSendMs.toNat) ∧
    (∀ t, TimedStep clock cfg s t → Timely cfg.opt s.timed t.timed) ∧
    (s.timed.selecting = true →
      clock.Elapsed (s.timed.calls - 1) s.timed.calls (msToTimeval cfg.opt.timeoutMs) →
      s.timed.finDue clock cfg.opt = true) := by
  have hpaced := reachable_paced h
  refine ⟨fun p ps hwindow => ⟨?_, ?_⟩, fun t hstep => (hstep.paced hpaced).2,
    finDue_of_elapsed hpaced⟩
  · have hpast := hpaced.window.past p (hwindow ▸ List.mem_cons_self)
    rw [timeout_toNat hpaced hwindow]
    omega
  · have hsorted := hpaced.window.sorted
    rw [hwindow] at hsorted
    exact (List.pairwise_cons.mp hsorted).1

/-! ## One byte, sent twice -/

/-- A second goes by behind the first call. -/
def oneSecond : Clock where
  reading i := if i = 0 then 0 else 1000
  steady := by
    intro i j hij
    by_cases hi : i = 0
    · simp [hi]
    · simp [hi, show j ≠ 0 by omega]

def oneByteTimed (lastSendMs : UInt64) (calls : Nat) (retransmits : UInt64) : TimedSender where
  phase := .main
  unread := []
  window := [⟨oneByte.entry 0, lastSendMs⟩]
  base := 0
  nextSeq := 1
  eof := true
  totalSentPayload := 1
  retransmits := retransmits
  lastFinSend := 0
  selecting := false
  calls := calls

theorem oneByteTimed_begin : TimedMove oneSecond oneByte.opt (.fresh oneByte.file) none
    (oneByteTimed 0 1 0) [(oneByte.entry 0).bytes] := by
  have h := @TimedMove.begin oneSecond oneByte.opt (.fresh oneByte.file) rfl
  rw [TimedSender.fill, if_pos (by decide), if_neg (by decide), TimedSender.fill, if_pos (by decide),
    if_pos (by decide)] at h
  exact h

theorem oneByteTimed_timeout : TimedMove oneSecond oneByte.opt (oneByteTimed 0 1 0) none
    (oneByteTimed 1000 3 1) [(oneByte.entry 0).bytes] :=
  .timeout rfl rfl fun _ => by
    unfold Clock.Elapsed
    decide

theorem oneByteTimed_reachable : (timedTransfer oneSecond oneByte).Reachable
    { timed := oneByteTimed 0 1 0, receiver := .fresh, toReceiver := [((), (oneByte.entry 0).bytes)],
      toSender := [], history := ⟨[], []⟩ } :=
  .step (.init rfl) (@TimedStep.senderAlone _ oneSecond oneByte
    ⟨.fresh oneByte.file, .fresh, [], [], ⟨[], []⟩⟩ _ _ oneByteTimed_begin)

theorem oneByte_fits : oneByte.Fits := by
  unfold Config.Fits
  decide

theorem oneByteTimed_delivered : ∃ s, (timedTransfer oneSecond oneByte).Reachable s ∧
    s.receiver.out = oneByte.file ∧ s.receiver.out <+: oneByte.file := by
  have h := oneByteTimed_reachable.step (.receiverTakes rfl (takes_head _ _))
  simp only [TimedState.receiverMoved, TimedState.untimed, State.receiverMoved, Receiver.onDatagram, isData,
    parse_entry_received] at h
  exact ⟨_, h, rfl, ((timed_transfer_refines oneSecond oneByte _ h).2 oneByte_fits).1⟩

theorem oneByteTimed_again : ∃ s t, (timedTransfer oneSecond oneByte).Reachable s ∧
    TimedStep oneSecond oneByte s t ∧ t.timed.retransmits = s.timed.retransmits + 1 ∧
    Timely oneByte.opt s.timed t.timed :=
  ⟨_, _, oneByteTimed_reachable, .senderAlone oneByteTimed_timeout, rfl,
    (retransmission_timing oneSecond oneByte _ oneByteTimed_reachable).2.1 _
      (.senderAlone oneByteTimed_timeout)⟩

end Rdtp
