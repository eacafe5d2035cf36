import ComputerNetworks.Exchange.Shutdown
import ComputerNetworks.Exchange.Session
import Mathlib.Logic.Function.Basic

/-!
# The server and all of its clients

The parent process of `server.cpp` with any number of clients, in any order of their calls. The parent takes
one connection at a time and forks a child for it. A `SIGUSR1` of a child reaches it at any later time.
-/

open Lib Lib.Bytes Lib.Duplex

namespace Exchange

/-! ## The parent -/

/-- The parent is at the condition of its loop, behind it with the flag clear, in `accept`, in `fork` with
the connection of a client, or it has left the loop. -/
inductive Parent (κ : Type) where
  | checking
  | entering
  | accepting
  | forking (k : κ)
  | left

variable {κ : Type}

def Parent.check (shutdownRequested : Bool) : Parent κ :=
  if shutdownRequested then .left else .entering

/-- `accept` has given -1 with `EINTR`. -/
def Parent.interrupted (shutdownRequested : Bool) : Parent κ :=
  if shutdownRequested then .left else .checking

/-- `handle_sigusr1` has run: a signal that comes in `accept` ends the call. -/
def Parent.signalled : Parent κ → Parent κ
  | .accepting => .interrupted true
  | p => p

/-- Where a client is: not there yet, in the queue of `listen_fd`, accepted, served by a child, or closed
without a child. -/
inductive Stage where
  | absent
  | queued
  | accepted
  | served
  | dropped
  deriving DecidableEq, Repr

structure Session where
  stage : Stage
  connection : Connection Client Child

structure Server (κ : Type) where
  parent : Parent κ
  /-- `g_shutdown_requested` -/
  shutdownRequested : Bool
  /-- A `SIGUSR1` is under way to the parent. -/
  pending : Bool
  session : κ → Session
  /-- No step looks at it: `accept` has failed for good. -/
  acceptFailed : Bool
  /-- No step looks at it: the connections that were accepted with the flag set. -/
  acceptedLate : Nat

/-- The child has asked for a shutdown. -/
def Child.asked : Child → Bool
  | .exited 0 (some buf) => (parseLines buf).outOfRange
  | _ => false

/-- It does so on the way from the one state to the other. -/
def Child.asks (s t : Child) : Bool := !s.asked && t.asked

theorem signals_sends {s : Child} (hs : s.asked = false) (buf resp : Bytes) (turn : Turn Nat Int) :
    (Child.sends buf resp turn).2 = if s.asks (Child.sends buf resp turn).1 then [.usr1] else [] := by
  rw [Child.asks, hs, Bool.not_false, Bool.true_and]
  cases turn with
  | next total => rfl
  | leave r =>
    rw [Child.sends]
    by_cases hr : r < 0
    · rw [if_pos hr]
      rfl
    · rw [if_neg hr]
      rfl

theorem child_step_of_acts {alone : Prop} {c d : Child} {inbox inbox' data : Bytes}
    (h : Acts childProcess alone (c, inbox) data (d, inbox')) :
    ∃ r signals, child.step c r = (d, signals) := by
  obtain ⟨r, rfl⟩ := h.exists_result
  exact ⟨r, (child.step c r).2, rfl⟩

theorem child_step_signals (s : Child) (r : Result) :
    (child.step s r).2 = if s.asks (child.step s r).1 then [.usr1] else [] := by
  have hsame : ∀ s : Child, s.asks s = false := fun s => Bool.not_and_self s.asked
  match s, r with
  | .receiving t, .recv r =>
    change (Child.recvs (recvTurn bufferSize t r)).2 =
      if Child.asks _ (Child.recvs (recvTurn bufferSize t r)).1 then _ else _
    cases recvTurn bufferSize t r with
    | next t => rfl
    | leave out =>
      cases out with
      | none => rfl
      | some buf =>
        rw [child_read]
        rfl
  | .sending buf resp total, .send r => exact signals_sends rfl _ _ _
  | .receiving t, .send r => rfl
  | .sending buf resp total, .recv r => rfl
  | .exited code buf, .recv r =>
    change [] = if Child.asks (.exited code buf) (.exited code buf) then _ else _
    rw [hsame, if_neg Bool.false_ne_true]
  | .exited code buf, .send r =>
    change [] = if Child.asks (.exited code buf) (.exited code buf) then _ else _
    rw [hsame, if_neg Bool.false_ne_true]

section System

variable [DecidableEq κ]

def Server.setSession (s : Server κ) (k : κ) (session : Session) : Server κ :=
  { s with session := Function.update s.session k session }

def Server.setStage (s : Server κ) (k : κ) (stage : Stage) : Server κ :=
  s.setSession k ⟨stage, (s.session k).connection⟩

def Server.setConnection (s : Server κ) (k : κ) (c : Connection Client Child) : Server κ :=
  s.setSession k ⟨(s.session k).stage, c⟩

/-- The kernel has the connection, and nobody has closed it. -/
def Stage.open : Stage → Prop
  | .queued => True
  | .accepted => True
  | .served => True
  | _ => False

/-- One step of one of the processes. -/
inductive Server.Step : Server κ → Server κ → Prop where
  | connects {s : Server κ} (k : κ) : s.parent ≠ .left → (s.session k).stage = .absent →
      Step s (s.setStage k .queued)
  | client {s : Server κ} {k : κ} {c : Client} {data inbox : Bytes} : (s.session k).stage.open →
      Acts clientProcess (childProcess.gone (s.session k).connection.right)
        ((s.session k).connection.left, (s.session k).connection.toLeft) data (c, inbox) →
      Step s (s.setConnection k { (s.session k).connection with
        left := c, toLeft := inbox, toRight := (s.session k).connection.toRight ++ data })
  | child {s : Server κ} {k : κ} {r : Result} {c : Child} {signals : List Signal} {data inbox : Bytes} :
      (s.session k).stage = .served →
      Acts childProcess (clientProcess.gone (s.session k).connection.left)
        ((s.session k).connection.right, (s.session k).connection.toRight) data (c, inbox) →
      child.step (s.session k).connection.right r = (c, signals) →
      Step s { s.setConnection k { (s.session k).connection with
          right := c, toRight := inbox, toLeft := (s.session k).connection.toLeft ++ data } with
        pending := s.pending || !signals.isEmpty }
  /-- A call of a client on a connection that was closed gives anything. -/
  | cutOff {s : Server κ} {k : κ} (r : Result) : (s.session k).stage = .dropped →
      Step s (s.setConnection k { (s.session k).connection with
        left := (s.session k).connection.left.step r })
  | checks {s : Server κ} : s.parent = .checking →
      Step s { s with parent := .check s.shutdownRequested }
  | enters {s : Server κ} : s.parent = .entering → Step s { s with parent := .accepting }
  | accepts {s : Server κ} {k : κ} : s.parent = .accepting → (s.session k).stage = .queued →
      Step s { s.setStage k .accepted with
        parent := .forking k
        acceptedLate := s.acceptedLate + s.shutdownRequested.toNat }
  | interrupted {s : Server κ} : s.parent = .accepting →
      Step s { s with parent := .interrupted s.shutdownRequested }
  | acceptFails {s : Server κ} : s.parent = .accepting →
      Step s { s with parent := .left, acceptFailed := true }
  | forks {s : Server κ} {k : κ} : s.parent = .forking k →
      Step s { s.setStage k .served with parent := .checking }
  | forkFails {s : Server κ} {k : κ} : s.parent = .forking k →
      Step s { s.setStage k .dropped with parent := .checking }
  | signal {s : Server κ} : s.pending = true →
      Step s { s with parent := s.parent.signalled, shutdownRequested := true, pending := false }
  /-- `listen_fd` is closed, with the connections in its queue. -/
  | refuses {s : Server κ} {k : κ} : s.parent = .left → (s.session k).stage = .queued →
      Step s (s.setStage k .dropped)

/-- Nobody is there yet, and each client has a message. -/
def Server.fresh (m : κ → Message) : Server κ where
  parent := .checking
  shutdownRequested := false
  pending := false
  session k := ⟨.absent, ⟨.start (m k).name (m k).number, .start, [], []⟩⟩
  acceptFailed := false
  acceptedLate := 0

def server (m : κ → Message) : System (Server κ) where
  init s := s = .fresh m
  step := Server.Step

/-! ## The parent's order -/

theorem setSession_session (s : Server κ) (k j : κ) (session : Session) :
    (s.setSession k session).session j = if j = k then session else s.session j :=
  Function.update_apply s.session k session j

@[simp] theorem setStage_stage (s : Server κ) (k j : κ) (stage : Stage) :
    ((s.setStage k stage).session j).stage = if j = k then stage else (s.session j).stage := by
  rw [Server.setStage, setSession_session]
  split
  · rfl
  · rfl

@[simp] theorem setConnection_stage (s : Server κ) (k j : κ) (c : Connection Client Child) :
    ((s.setConnection k c).session j).stage = (s.session j).stage := by
  rw [Server.setConnection, setSession_session]
  split
  · rename_i hj
    rw [hj]
  · rfl

/-- What the parent has in its hands, and how it comes to its end. -/
structure Server.Orderly (s : Server κ) : Prop where
  held : ∀ k, s.parent = .forking k ↔ (s.session k).stage = .accepted
  left : s.parent = .left → s.shutdownRequested = true ∨ s.acceptFailed = true
  once : s.acceptedLate ≤ 1
  late : s.acceptedLate ≠ 0 →
    s.shutdownRequested = true ∧ s.parent ≠ .entering ∧ s.parent ≠ .accepting

variable {s t : Server κ}

theorem Server.Orderly.held_setStage (h : s.Orderly) {k : κ} {stage : Stage} (hstage : stage ≠ .accepted)
    (hk : (s.session k).stage ≠ .accepted) (j : κ) :
    s.parent = .forking j ↔ ((s.setStage k stage).session j).stage = .accepted := by
  rw [h.held j, setStage_stage]
  by_cases hj : j = k
  · subst hj
    rw [if_pos rfl]
    exact iff_of_false hk hstage
  · rw [if_neg hj]

theorem Server.Orderly.held_released (h : s.Orderly) {k : κ} (hk : s.parent = .forking k) {stage : Stage}
    (hstage : stage ≠ .accepted) (j : κ) :
    Parent.checking = .forking j ↔ ((s.setStage k stage).session j).stage = .accepted := by
  rw [setStage_stage]
  by_cases hj : j = k
  · rw [if_pos hj]
    exact iff_of_false nofun hstage
  · rw [if_neg hj, ← h.held j, hk]
    exact iff_of_false nofun fun heq => hj (Parent.forking.inj heq).symm

omit [DecidableEq κ] in
theorem Server.Orderly.held_other (h : s.Orderly) {p : Parent κ} (hp : ∀ k, p ≠ .forking k)
    (hs : ∀ k, s.parent ≠ .forking k) (j : κ) :
    p = .forking j ↔ (s.session j).stage = .accepted := by
  rw [← h.held j]
  exact iff_of_false (hp j) (hs j)

theorem Server.Orderly.held_setConnection (h : s.Orderly) (k : κ) (c : Connection Client Child) (j : κ) :
    s.parent = .forking j ↔ ((s.setConnection k c).session j).stage = .accepted := by
  rw [setConnection_stage]
  exact h.held j

omit [DecidableEq κ] in
theorem signalled_cases (p : Parent κ) :
    p = .accepting ∧ p.signalled = .left ∨ p ≠ .accepting ∧ p.signalled = p := by
  cases p with
  | accepting => exact .inl ⟨rfl, rfl⟩
  | _ => exact .inr ⟨nofun, rfl⟩

theorem Server.Orderly.step (h : s.Orderly) (hstep : Server.Step s t) : t.Orderly := by
  obtain ⟨hheld, hleft, honce, hlate⟩ := id h
  cases hstep with
  | connects k hp hk => exact ⟨h.held_setStage nofun (hk ▸ nofun), hleft, honce, hlate⟩
  | client hopen hacts => exact ⟨h.held_setConnection _ _, hleft, honce, hlate⟩
  | child hserved hacts hsignals => exact ⟨h.held_setConnection _ _, hleft, honce, hlate⟩
  | cutOff r hdropped => exact ⟨h.held_setConnection _ _, hleft, honce, hlate⟩
  | checks hp =>
    cases hflag : s.shutdownRequested with
    | false =>
      have hzero : s.acceptedLate = 0 := by
        by_contra hne
        exact absurd (hlate hne).1 (by simp [hflag])
      refine ⟨h.held_other nofun (by simp [hp]), nofun, honce, fun hne => absurd hzero hne⟩
    | true =>
      exact ⟨h.held_other nofun (by simp [hp]), fun _ => .inl rfl, honce, fun _ => ⟨rfl, nofun, nofun⟩⟩
  | enters hp =>
    exact ⟨h.held_other nofun (by simp [hp]), nofun, honce, fun hne => absurd hp (hlate hne).2.1⟩
  | @accepts k hp hk =>
    -- With the flag set, this is the one that came in between.
    have hzero : s.acceptedLate = 0 := by
      by_contra hne
      exact (hlate hne).2.2 hp
    refine ⟨fun j => ?_, nofun, ?_, fun hne => ⟨?_, nofun, nofun⟩⟩
    · change _ ↔ ((s.setStage k .accepted).session j).stage = .accepted
      rw [setStage_stage]
      by_cases hj : j = k
      · rw [if_pos hj, hj]
        exact iff_of_true rfl rfl
      · rw [if_neg hj, ← hheld j, hp]
        exact iff_of_false (fun heq => hj (Parent.forking.inj heq).symm) nofun
    · change s.acceptedLate + _ ≤ 1
      rw [hzero, Nat.zero_add]
      exact Bool.toNat_le _
    · change s.shutdownRequested = true
      change s.acceptedLate + _ ≠ 0 at hne
      rw [hzero, Nat.zero_add] at hne
      exact Bool.of_not_eq_false fun hflag => hne (by rw [hflag]; rfl)
  | interrupted hp =>
    have hzero : s.acceptedLate = 0 := by
      by_contra hne
      exact (hlate hne).2.2 hp
    cases hflag : s.shutdownRequested with
    | false => exact ⟨h.held_other nofun (by simp [hp]), nofun, honce, fun hne => absurd hzero hne⟩
    | true =>
      exact ⟨h.held_other nofun (by simp [hp]), fun _ => .inl rfl, honce, fun hne => absurd hzero hne⟩
  | acceptFails hp =>
    exact ⟨h.held_other nofun (by simp [hp]), fun _ => .inr rfl, honce,
      fun hne => absurd hp (hlate hne).2.2⟩
  | forks hp =>
    exact ⟨h.held_released hp nofun, nofun, honce, fun hne => ⟨(hlate hne).1, nofun, nofun⟩⟩
  | forkFails hp =>
    exact ⟨h.held_released hp nofun, nofun, honce, fun hne => ⟨(hlate hne).1, nofun, nofun⟩⟩
  | signal hpending =>
    rcases signalled_cases s.parent with ⟨hp, hsig⟩ | ⟨hp, hsig⟩
    · rw [hsig]
      exact ⟨h.held_other nofun (by simp [hp]), fun _ => .inl rfl, honce,
        fun hne => absurd hp (hlate hne).2.2⟩
    · rw [hsig]
      exact ⟨hheld, fun _ => .inl rfl, honce, fun hne => ⟨rfl, (hlate hne).2⟩⟩
  | refuses hp hk => exact ⟨h.held_setStage nofun (hk ▸ nofun), hleft, honce, hlate⟩

/-! ## Each session on its own -/

/-- What a step of the server can be to one session. -/
inductive Session.Moves : Session → Session → Prop where
  | stays (s : Session) : Moves s s
  | restaged {s : Session} (stage : Stage) : s.stage ≠ .served → s.stage ≠ .dropped →
      Moves s ⟨stage, s.connection⟩
  | client {s : Session} {c : Connection Client Child} : s.stage.open →
      Step clientProcess childProcess s.connection c → c.right = s.connection.right →
        Moves s ⟨s.stage, c⟩
  | child {s : Session} {c : Connection Client Child} : s.stage = .served →
      Step clientProcess childProcess s.connection c → Moves s ⟨s.stage, c⟩
  | cutOff {s : Session} (c : Client) : s.stage = .dropped →
      Moves s ⟨s.stage, { s.connection with left := c }⟩

theorem moves_setSession {k : κ} {session : Session} (h : (s.session k).Moves session) (j : κ) :
    (s.session j).Moves ((s.setSession k session).session j) := by
  rw [setSession_session]
  by_cases hj : j = k
  · rw [if_pos hj, hj]
    exact h
  · rw [if_neg hj]
    exact .stays _

theorem Server.Step.moves (hs : s.Orderly) (hstep : Server.Step s t) (j : κ) :
    (s.session j).Moves (t.session j) := by
  have hrestaged : ∀ {k : κ} {old : Stage} (new : Stage), (s.session k).stage = old →
      old ≠ .served → old ≠ .dropped → (s.session j).Moves ((s.setStage k new).session j) :=
    fun new hold hserved hdropped =>
      moves_setSession (.restaged new (hold ▸ hserved) (hold ▸ hdropped)) j
  cases hstep with
  | connects k hp hk => exact hrestaged _ hk nofun nofun
  | client hopen hacts => exact moves_setSession (.client hopen (.left hacts) rfl) j
  | child hserved hacts hsignals => exact moves_setSession (.child hserved (.right hacts)) j
  | cutOff r hdropped => exact moves_setSession (.cutOff _ hdropped) j
  | accepts hp hk => exact hrestaged _ hk nofun nofun
  | forks hp => exact hrestaged _ ((hs.held _).mp hp) nofun nofun
  | forkFails hp => exact hrestaged _ ((hs.held _).mp hp) nofun nofun
  | refuses hp hk => exact hrestaged _ hk nofun nofun
  | checks hp => exact .stays _
  | enters hp => exact .stays _
  | interrupted hp => exact .stays _
  | acceptFails hp => exact .stays _
  | signal hpending => exact .stays _

/-- A session that was not dropped is an exchange like any other. -/
structure Session.Sound (m : Message) (s : Session) : Prop where
  exchange : s.stage ≠ .dropped → (exchange m).Reachable s.connection
  unserved : s.stage ≠ .served → s.connection.right = .start

theorem Session.Sound.moves {m : Message} {s t : Session} (h : s.Sound m) (hm : s.Moves t) : t.Sound m := by
  cases hm with
  | stays => exact h
  | restaged stage hserved hdropped =>
    exact ⟨fun _ => h.exchange hdropped, fun _ => h.unserved hserved⟩
  | client hopen hstep hright =>
    refine ⟨fun hdropped => (h.exchange hdropped).step hstep, fun hserved => ?_⟩
    rw [← h.unserved hserved]
    exact hright
  | child hserved hstep =>
    exact ⟨fun hdropped => (h.exchange hdropped).step hstep, fun hno => absurd hserved hno⟩
  | cutOff c hdropped => exact ⟨fun hno => absurd hdropped hno, h.unserved⟩

/-! ## Requests to shut down -/

theorem asked_false_of_acts {alone : Prop} {c d : Child} {inbox inbox' data : Bytes}
    (h : Acts childProcess alone (c, inbox) data (d, inbox')) : c.asked = false := by
  cases c with
  | receiving s => rfl
  | sending buf resp total => rfl
  | exited code buf =>
    rcases h.called with hoffers | hlistens
    · exact absurd rfl hoffers
    · exact hlistens.elim

/-- The flag is set, or will be. -/
def Server.Requested (s : Server κ) : Prop := s.shutdownRequested = true ∨ s.pending = true

/-- The children that have asked for it are the reason. -/
def Server.Justified (s : Server κ) : Prop :=
  s.Requested ↔ ∃ k, (s.session k).connection.right.asked = true

omit [DecidableEq κ] in
theorem Server.Justified.of_same (h : s.Justified) (hrequested : t.Requested ↔ s.Requested)
    (hright : ∀ k, (t.session k).connection.right = (s.session k).connection.right) : t.Justified := by
  have hiff : s.Requested ↔ _ := h
  rw [Server.Justified, hrequested, hiff]
  simp only [hright]

theorem Server.Justified.step (h : s.Justified) (hstep : Server.Step s t) : t.Justified := by
  have hright : ∀ (k : κ) (session : Session),
      session.connection.right = (s.session k).connection.right →
      ∀ j, ((s.setSession k session).session j).connection.right = (s.session j).connection.right := by
    intro k session hk j
    rw [setSession_session]
    by_cases hj : j = k
    · rw [if_pos hj, hj, hk]
    · rw [if_neg hj]
  cases hstep with
  | connects k hp hk => exact h.of_same .rfl (hright k _ rfl)
  | client hopen hacts => exact h.of_same .rfl (hright _ _ rfl)
  | cutOff r hdropped => exact h.of_same .rfl (hright _ _ rfl)
  | accepts hp hk => exact h.of_same .rfl (hright _ _ rfl)
  | forks hp => exact h.of_same .rfl (hright _ _ rfl)
  | forkFails hp => exact h.of_same .rfl (hright _ _ rfl)
  | refuses hp hk => exact h.of_same .rfl (hright _ _ rfl)
  | checks hp => exact h.of_same .rfl fun _ => rfl
  | enters hp => exact h.of_same .rfl fun _ => rfl
  | interrupted hp => exact h.of_same .rfl fun _ => rfl
  | acceptFails hp => exact h.of_same .rfl fun _ => rfl
  | signal hpending =>
    exact h.of_same (iff_of_true (.inl rfl) (.inr hpending)) fun _ => rfl
  | @child k r c signals data inbox hserved hacts hsignals =>
    have hbefore := asked_false_of_acts hacts
    have hasks : (!signals.isEmpty) = c.asked := by
      have hgives := child_step_signals (s.session k).connection.right r
      rw [hsignals, Child.asks, hbefore, Bool.not_false, Bool.true_and] at hgives
      rw [show signals = if c.asked then [.usr1] else [] from hgives]
      cases c.asked with
      | false => rfl
      | true => rfl
    have hrequested : (s.shutdownRequested = true ∨ (s.pending || c.asked) = true) ↔
        s.Requested ∨ c.asked = true := by
      rw [Bool.or_eq_true, Server.Requested, or_assoc]
    have hiff : s.Requested ↔ _ := h
    change (s.shutdownRequested = true ∨ (s.pending || _) = true) ↔ _
    rw [hasks, hrequested, hiff]
    constructor
    · rintro (⟨j, hj⟩ | hc)
      · have hne : j ≠ k := by
          rintro rfl
          rw [hbefore] at hj
          cases hj
        refine ⟨j, ?_⟩
        change (((s.setSession k _).session j).connection.right).asked = true
        rwa [setSession_session, if_neg hne]
      · refine ⟨k, ?_⟩
        change (((s.setSession k _).session k).connection.right).asked = true
        rwa [setSession_session, if_pos rfl]
    · rintro ⟨j, hj⟩
      change (((s.setSession k _).session j).connection.right).asked = true at hj
      rw [setSession_session] at hj
      by_cases hne : j = k
      · rw [if_pos hne] at hj
        exact .inr hj
      · rw [if_neg hne] at hj
        exact .inl ⟨j, hj⟩

/-! ## Every run -/

variable {m : κ → Message}

theorem reachable_orderly (h : (server m).Reachable s) : s.Orderly := by
  refine h.invariant (J := fun _ => True) (fun _ _ => trivial) ?_ fun _ _ _ _ hs hst => hs.step hst
  rintro _ rfl
  exact ⟨fun _ => iff_of_false nofun nofun, nofun, Nat.zero_le 1, fun hne => absurd rfl hne⟩

theorem reachable_session (h : (server m).Reachable s) (k : κ) : (s.session k).Sound (m k) := by
  refine h.invariant (J := Server.Orderly) (I := fun s => (s.session k).Sound (m k))
    (fun _ => reachable_orderly) ?_ fun _ _ hs _ hk hst => hk.moves (hst.moves hs k)
  rintro _ rfl
  exact ⟨fun _ => .init rfl, fun _ => rfl⟩

theorem reachable_justified (h : (server m).Reachable s) : s.Justified := by
  refine h.invariant (J := fun _ => True) (fun _ _ => trivial) ?_ fun _ _ _ _ hs hst => hs.step hst
  rintro _ rfl
  exact iff_of_false (by rintro (h | h) <;> cases h) (by rintro ⟨k, h⟩; cases h)

theorem Message.outOfRange_iff (m : Message) :
    (parseLines m.text).outOfRange = true ↔ ¬ InRange m.number.toInt := by
  obtain ⟨htext, -⟩ := m.text_eq
  rw [htext, twoLines, Exchange.outOfRange_iff m.plain.1, and_iff_right m.plain.2, atoi_lf,
    Number.atoi_intText]

/-- The child of a client has come to its end. -/
def Session.completed (s : Session) : Prop := ∃ buf, s.connection.right = .exited 0 (some buf)

theorem asked_iff {m : Message} {s : Session} (h : s.Sound m) :
    s.connection.right.asked = true ↔
      s.stage = .served ∧ s.completed ∧ ¬ InRange m.number.toInt := by
  by_cases hserved : s.stage = .served
  · have hwhole := whole (h.exchange (hserved ▸ nofun))
    rw [and_iff_right hserved]
    constructor
    · intro hasked
      match hright : s.connection.right with
      | .receiving t => rw [hright] at hasked; cases hasked
      | .sending buf resp total => rw [hright] at hasked; cases hasked
      | .exited code none => rw [hright] at hasked; cases code <;> cases hasked
      | .exited (code + 1) (some buf) => rw [hright] at hasked; cases hasked
      | .exited 0 (some buf) =>
        obtain rfl := hwhole.child buf (by rw [hright]; rfl)
        rw [hright] at hasked
        exact ⟨⟨_, hright⟩, m.outOfRange_iff.mp hasked⟩
    · rintro ⟨⟨buf, hright⟩, hrange⟩
      obtain rfl := hwhole.child buf (by rw [hright]; rfl)
      rw [hright]
      exact m.outOfRange_iff.mpr hrange
  · rw [h.unserved hserved]
    exact iff_of_false nofun fun hno => hserved hno.1

/-- **Shutdown.** In every order of steps: the parent is asked to shut down exactly when a child has served a
client with a number out of range; it leaves its loop only for that, or because `accept` has failed; and once
the flag is set, it accepts one connection at most. -/
theorem server_shutdown (m : κ → Message) (s : Server κ) (h : (server m).Reachable s) :
    (s.Requested ↔
      ∃ k, (s.session k).stage = .served ∧ (s.session k).completed ∧ ¬ InRange (m k).number.toInt) ∧
    (s.parent = .left → s.shutdownRequested = true ∨ s.acceptFailed = true) ∧ s.acceptedLate ≤ 1 := by
  have horder := reachable_orderly h
  have hjustified : s.Requested ↔ _ := reachable_justified h
  refine ⟨?_, horder.left, horder.once⟩
  rw [hjustified]
  exact exists_congr fun k => asked_iff (reachable_session h k)

/-! ## Every client -/

/-- While a child serves a client, the two go on as if there were nobody else. -/
theorem leads_of_exchange {k : κ} {c d : Connection Client Child} (h : (exchange (m k)).Leads c d)
    (hk : s.session k = ⟨.served, c⟩) :
    ∃ t, (server m).Leads s t ∧ t.session k = ⟨.served, d⟩ ∧ t.parent = s.parent ∧
      ∀ j, j ≠ k → t.session j = s.session j := by
  induction h with
  | refl => exact ⟨s, .refl s, hk, rfl, fun _ _ => rfl⟩
  | tail _ hstep ih =>
    obtain ⟨t, hleads, htk, hparent, hothers⟩ := ih
    have hservedStage : (t.session k).stage = .served := by rw [htk]
    have hset : ∀ c, (t.setConnection k c).session k = ⟨.served, c⟩ := fun c => by
      rw [Server.setConnection, setSession_session, if_pos rfl, hservedStage]
    have hkeep : ∀ c j, j ≠ k → (t.setConnection k c).session j = s.session j := fun c j hj => by
      rw [Server.setConnection, setSession_session, if_neg hj, hothers j hj]
    cases hstep with
    | left hacts =>
      have hstep' := Server.Step.client (s := t) (k := k) (by rw [hservedStage]; trivial)
        (by rw [htk]; exact hacts)
      refine ⟨_, hleads.step hstep', ?_, hparent, hkeep _⟩
      rw [hset, htk]
    | right hacts =>
      obtain ⟨r, signals, hsignals⟩ := child_step_of_acts hacts
      have hstep' := Server.Step.child (s := t) (k := k) hservedStage (by rw [htk]; exact hacts)
        (by rw [htk]; exact hsignals)
      refine ⟨_, hleads.step hstep', ?_, hparent, hkeep _⟩
      change (t.setConnection k _).session k = _
      rw [hset, htk]

/-- A client that waits in the queue, and a parent that comes to the next `accept`. -/
structure Server.Admits (s : Server κ) (k : κ) : Prop where
  queued : (s.session k).stage = .queued
  goesOn : s.parent ≠ .left
  clear : s.shutdownRequested = false

theorem Server.Admits.leads_entered {k : κ} (h : s.Admits k)
    (hp : s.parent = .entering ∨ s.parent = .accepting) :
    ∃ t, (server m).Leads s t ∧ t.Admits k ∧ t.parent = .accepting := by
  rcases hp with hp | hp
  · exact ⟨_, .of_step (.enters hp), ⟨h.queued, nofun, h.clear⟩, rfl⟩
  · exact ⟨s, .refl s, h, hp⟩

theorem Server.Admits.leads_checked {k : κ} (h : s.Admits k) (hp : s.parent = .checking) :
    ∃ t, (server m).Leads s t ∧ t.Admits k ∧ t.parent = .accepting := by
  have hcheck : Parent.check s.shutdownRequested = (.entering : Parent κ) := by rw [h.clear]; rfl
  have hadmits : Server.Admits { s with parent := .check s.shutdownRequested } k :=
    ⟨h.queued, by rw [hcheck]; nofun, h.clear⟩
  obtain ⟨t, hleads, ht⟩ := hadmits.leads_entered (m := m) (.inl hcheck)
  exact ⟨t, (System.Leads.of_step (S := server m) (.checks hp)).trans hleads, ht⟩

theorem Server.Admits.leads_accepting (hs : s.Orderly) {k : κ} (h : s.Admits k) :
    ∃ t, (server m).Leads s t ∧ t.Admits k ∧ t.parent = .accepting := by
  cases hp : s.parent with
  | checking => exact h.leads_checked hp
  | entering => exact h.leads_entered (.inl hp)
  | accepting => exact h.leads_entered (.inr hp)
  | left => exact absurd hp h.goesOn
  | forking j =>
    -- It forks for another client first.
    have hne : k ≠ j := by
      rintro rfl
      have haccepted := (hs.held k).mp hp
      rw [h.queued] at haccepted
      cases haccepted
    have hadmits : Server.Admits { s.setStage j .served with parent := .checking } k := by
      refine ⟨?_, nofun, h.clear⟩
      change ((s.setStage j .served).session k).stage = .queued
      rw [setStage_stage, if_neg hne, h.queued]
    obtain ⟨t, hleads, ht⟩ := hadmits.leads_checked (m := m) rfl
    exact ⟨t, (System.Leads.of_step (S := server m) (.forks hp)).trans hleads, ht⟩

theorem leads_served (hs : s.Orderly) {k : κ}
    (hk : (s.session k).stage = .served ∨ (s.session k).stage = .accepted ∨ s.Admits k) :
    ∃ t, (server m).Leads s t ∧ (t.session k).stage = .served := by
  have hforks : ∀ s : Server κ, s.parent = .forking k →
      ∃ t, (server m).Leads s t ∧ (t.session k).stage = .served := fun s hp => by
    refine ⟨_, .of_step (.forks hp), ?_⟩
    change ((s.setStage k .served).session k).stage = .served
    rw [setStage_stage, if_pos rfl]
  rcases hk with hserved | haccepted | hadmits
  · exact ⟨s, .refl s, hserved⟩
  · exact hforks s ((hs.held k).mpr haccepted)
  · obtain ⟨t, hleads, ht, hp⟩ := hadmits.leads_accepting (m := m) hs
    have haccepts := hleads.step (.accepts hp ht.queued)
    obtain ⟨u, hleads', hserved⟩ := hforks { t.setStage k .accepted with
      parent := .forking k
      acceptedLate := t.acceptedLate + t.shutdownRequested.toNat } rfl
    exact ⟨u, haccepts.trans hleads', hserved⟩

theorem leads_completed (h : (server m).Reachable s) {k : κ} (hk : (s.session k).stage = .served) :
    ∃ t, (server m).Leads s t ∧ (t.session k).stage = .served ∧
      (t.session k).connection.left = .exited 0 (some reply.text) ∧
      (t.session k).connection.right = .exited 0 (some (m k).text) ∧
      t.parent = s.parent ∧ ∀ j, j ≠ k → t.session j = s.session j := by
  obtain ⟨d, hleads, hl, hr⟩ := comes_to_end ((reachable_session h k).exchange (hk ▸ nofun))
  obtain ⟨t, hleads', htk, hparent, hothers⟩ := leads_of_exchange hleads (s := s) (by rw [← hk])
  refine ⟨t, hleads', ?_⟩
  rw [htk]
  exact ⟨rfl, hl, hr, hparent, hothers⟩

/-- **Service.** In every order of steps, whatever the others do: a client that is served reads the reply
and nothing else, its child reads the client's name and number; and the two can come to their end with no
step of anybody else, also when the parent has left its loop. A client in the queue can come to a child
while the parent is in its loop and no shutdown is asked for. -/
theorem server_serves (m : κ → Message) (s : Server κ) (h : (server m).Reachable s) (k : κ) :
    ((s.session k).stage = .served →
      (∀ buf, (s.session k).connection.right.buffer = some buf →
        (parseLines buf).first = (m k).name ∧ (parseLines buf).number = (m k).number) ∧
      (∀ resp, (s.session k).connection.left.buffer = some resp → resp = reply.text) ∧
      ∃ t, (server m).Leads s t ∧ (t.session k).connection.left = .exited 0 (some reply.text) ∧
        (t.session k).connection.right = .exited 0 (some (m k).text) ∧
        t.parent = s.parent ∧ ∀ j, j ≠ k → t.session j = s.session j) ∧
    ((s.session k).stage = .accepted ∨
        ((s.session k).stage = .queued ∧ s.parent ≠ .left ∧ ¬ s.Requested) →
      ∃ t, (server m).Leads s t ∧ (t.session k).stage = .served) := by
  refine ⟨fun hserved => ⟨?_, ?_, ?_⟩, fun hwaits => ?_⟩
  · intro buf hbuf
    obtain rfl := (whole ((reachable_session h k).exchange (hserved ▸ nofun))).child buf hbuf
    exact (m k).parsed
  · exact (whole ((reachable_session h k).exchange (hserved ▸ nofun))).client
  · obtain ⟨t, hleads, -, ht⟩ := leads_completed h hserved
    exact ⟨t, hleads, ht⟩
  · refine leads_served (reachable_orderly h) (.inr (hwaits.imp_right ?_))
    rintro ⟨hqueued, hparent, hclear⟩
    exact ⟨hqueued, hparent, Bool.eq_false_iff.mpr fun hflag => hclear (.inl hflag)⟩

end System

/-! ## A client that ends the server -/

def outOfRangeClient : Message where
  name := ofString "Client Bad"
  number := 0
  text := ofString "Client Bad\n0\n"
  plain := by decide
  accepted := by decide +kernel

theorem outOfRangeClient_served : ∃ s, (server fun _ : Unit => outOfRangeClient).Reachable s ∧
    (s.session ()).stage = .served := by
  have hstart : (server fun _ : Unit => outOfRangeClient).Reachable (.fresh fun _ => outOfRangeClient) :=
    .init rfl
  have hqueued := hstart.step (.connects () nofun rfl)
  obtain ⟨s, hleads, hserved⟩ := leads_served (reachable_orderly hqueued) (k := ())
    (.inr (.inr ⟨by rw [setStage_stage, if_pos rfl], nofun, rfl⟩))
  exact ⟨s, hqueued.leads hleads, hserved⟩

theorem outOfRangeClient_requests : ∃ s, (server fun _ : Unit => outOfRangeClient).Reachable s ∧
    s.Requested ∧ s.acceptedLate ≤ 1 := by
  obtain ⟨s, hs, hserved⟩ := outOfRangeClient_served
  obtain ⟨t, hleads, hserved', -, hright, -⟩ := leads_completed hs hserved
  have ht := hs.leads hleads
  obtain ⟨hiff, -, hlate⟩ := server_shutdown _ t ht
  exact ⟨t, ht, hiff.mpr ⟨(), hserved', ⟨_, hright⟩, by decide⟩, hlate⟩

theorem outOfRangeClient_completes : ∃ s, (server fun _ : Unit => outOfRangeClient).Reachable s ∧
    (s.session ()).connection.left = .exited 0 (some reply.text) := by
  obtain ⟨s, hs, hserved⟩ := outOfRangeClient_served
  obtain ⟨-, -, t, hleads, hleft, -⟩ := (server_serves _ s hs ()).1 hserved
  exact ⟨t, hs.leads hleads, hleft⟩

end Exchange
