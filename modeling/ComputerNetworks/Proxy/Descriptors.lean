import ComputerNetworks.Sockets.Owners
import Mathlib.Data.List.Perm.Subperm

/-!
# The descriptors of the proxy

The sockets of a running proxy: the one it listens on, and with any number of connections at once the
`clientSocketWrapper` of `handleClient` and the `serverSocket` of `fetchFromServer`.
-/

universe u

open Lib Sockets

namespace Proxy.Descriptors

variable {ι : Type u} [DecidableEq ι]

/-! ## The threads -/

/-- `temporary` is the object of `Socket(fd)` in an assignment, in `start` for `none`. -/
inductive Object (ι : Type u) where
  | listening
  | client (i : ι)
  | server (i : ι)
  | temporary (i : Option ι)
  deriving DecidableEq

/-- A connection is not there, accepted with the descriptor in a variable, in `handleClient`, in
`fetchFromServer` before its socket is there or behind that, or done. -/
inductive Stage where
  | absent
  | accepted (clientSocket : Int)
  | handling
  | resolving
  | connected
  | ended
  deriving DecidableEq, Repr

structure State (ι : Type u) where
  process : Process (Object ι)
  stage : ι → Stage

/-- `int fd = socket(..); o = Socket(fd);` -/
def openSocket (o temporary : Object ι) (fd : Int) : List (Op (Object ι)) :=
  [.call fd, .construct .socket temporary fd, .moveAssign .socket o temporary, .destroy .socket temporary]

def State.move (s : State ι) (i : ι) (process : Process (Object ι)) (stage : Stage) : State ι :=
  { process, stage := Function.update s.stage i stage }

/-- A step of `start` or of the thread of a connection. The system gives only what is not open. A `return`
or an exception in `fetchFromServer` ends the life of `serverSocket`, and `finish` is the same for
`handleClient`. -/
inductive Step (s : State ι) : State ι → Prop where
  | accept {i : ι} {clientSocket : Int} : s.stage i = .absent → 0 ≤ s.process.fd .listening →
      0 ≤ clientSocket → clientSocket ∉ s.process.table →
      Step s (s.move i (s.process.exec (.call clientSocket)) (.accepted clientSocket))
  | handle {i : ι} {clientSocket : Int} : s.stage i = .accepted clientSocket →
      Step s (s.move i (s.process.exec (.construct .socket (.client i) clientSocket)) .handling)
  | fetch {i : ι} : s.stage i = .handling →
      Step s (s.move i (s.process.exec (.construct .socket (.server i) (-1))) .resolving)
  | connect {i : ι} {fd : Int} : s.stage i = .resolving → 0 ≤ fd → fd ∉ s.process.table →
      Step s (s.move i (s.process.execAll (openSocket (.server i) (.temporary (some i)) fd)) .connected)
  | leave {i : ι} : s.stage i = .resolving ∨ s.stage i = .connected →
      Step s (s.move i (s.process.exec (.destroy .socket (.server i))) .handling)
  | finish {i : ι} : s.stage i = .handling →
      Step s (s.move i (s.process.exec (.destroy .socket (.client i))) .ended)
  | stop : Step s { s with process := s.process.exec (.closeSocket .listening) }

/-- Behind `socket` in `start`, which gave `fd`. -/
def started (fd : Int) : Process (Object ι) :=
  (start (Object ι)).execAll (.construct .socket .listening (-1) :: openSocket .listening (.temporary none) fd)

def proxy (ι : Type u) [DecidableEq ι] : System (State ι) where
  init s := (∃ fd, 0 ≤ fd ∧ s.process = started fd) ∧ ∀ i, s.stage i = .absent
  step := Step

/-- What a connection has open. -/
def State.descriptors (s : State ι) (i : ι) : List Int :=
  match s.stage i with
  | .absent => []
  | .accepted clientSocket => [clientSocket]
  | .handling => [s.process.fd (.client i)]
  | .resolving => [s.process.fd (.client i)]
  | .connected => [s.process.fd (.client i), s.process.fd (.server i)]
  | .ended => []

/-- What `start` has open. -/
def State.listening (s : State ι) : List Int :=
  if 0 ≤ s.process.fd .listening then [s.process.fd .listening] else []

/-! ## One socket -/

section Opening

variable {p : Process (Object ι)} {o temporary : Object ι} {fd : Int}

theorem allowsAll_openSocket (hlives : p.Lives o) (htemp : ¬p.Lives temporary) (hpos : 0 ≤ fd)
    (hfd : fd ∉ p.table) : p.AllowsAll (openSocket o temporary fd) := by
  have hne : o ≠ temporary := by
    rintro rfl
    exact htemp hlives
  have hcall : (p.exec (.call fd)).objects = p.objects := Process.objects_call p fd
  have hconstruct : ((p.exec (.call fd)).exec (.construct .socket temporary fd)).objects =
      Function.update p.objects temporary (some fd) := by rw [← hcall]; rfl
  refine ⟨hfd, ⟨?_, .inr ?_⟩, ⟨?_, ?_⟩, ?_, trivial⟩
  · unfold Process.Lives
    rw [hcall]
    exact htemp
  · have hhand : (p.exec (.call fd)).hand = fd :: p.hand := Process.hand_call p hpos
    rw [hhand]
    exact List.mem_cons_self
  · unfold Process.Lives
    rw [hconstruct, Function.update_of_ne hne]
    exact hlives
  · unfold Process.Lives
    rw [hconstruct, Function.update_self]
    rfl
  · have hmove := Process.objects_moveAssign
      ((p.exec (.call fd)).exec (.construct .socket temporary fd)) .socket hne
    have hdead := congrFun hmove temporary
    rw [Function.update_self] at hdead
    exact Option.isSome_iff_exists.mpr ⟨_, hdead⟩

theorem hand_openSocket (hpos : 0 ≤ fd) : (p.execAll (openSocket o temporary fd)).hand = p.hand := by
  have hcall : (p.exec (.call fd)).hand = fd :: p.hand := Process.hand_call p hpos
  calc (p.execAll (openSocket o temporary fd)).hand
      = (((p.exec (.call fd)).exec (.construct .socket temporary fd)).exec
          (.moveAssign .socket o temporary)).hand := Process.hand_destroy _ .socket temporary
    _ = ((p.exec (.call fd)).exec (.construct .socket temporary fd)).hand :=
        Process.hand_moveAssign _ .socket o temporary
    _ = (p.exec (.call fd)).hand.erase fd := rfl
    _ = p.hand := by rw [hcall, List.erase_cons_head]

theorem objects_openSocket (fd : Int) (hne : o ≠ temporary) (htemp : p.objects temporary = none) :
    (p.execAll (openSocket o temporary fd)).objects = Function.update p.objects o (some fd) := by
  have hcall : (p.exec (.call fd)).objects = p.objects := Process.objects_call p fd
  have hconstruct : ((p.exec (.call fd)).exec (.construct .socket temporary fd)).objects =
      Function.update p.objects temporary (some fd) := by rw [← hcall]; rfl
  have hfd : ((p.exec (.call fd)).exec (.construct .socket temporary fd)).fd temporary = fd := by
    unfold Process.fd
    rw [hconstruct, Function.update_self]
    rfl
  have hmove :
      (((p.exec (.call fd)).exec (.construct .socket temporary fd)).exec
        (.moveAssign .socket o temporary)).objects =
      Function.update (Function.update (Function.update p.objects temporary (some fd)) o (some fd))
        temporary (some (-1)) := by
    refine (Process.objects_moveAssign _ .socket hne).trans ?_
    rw [hfd, hconstruct]
  refine (Process.objects_destroy _ .socket temporary).trans ?_
  rw [hmove]
  funext x
  by_cases hx : x = temporary
  · subst hx
    rw [Function.update_self, Function.update_of_ne (Ne.symm hne), htemp]
  · by_cases hxo : x = o
    · subst hxo
      simp [hx]
    · simp [hx, hxo]

end Opening

/-! ## The invariant -/

/-- The objects of a connection at a stage. -/
def Fits (p : Process (Object ι)) (i : ι) : Stage → Prop
  | .absent => p.objects (.client i) = none ∧ p.objects (.server i) = none
  | .accepted clientSocket =>
    p.objects (.client i) = none ∧ p.objects (.server i) = none ∧ clientSocket ∈ p.hand
  | .handling => (∃ d, 0 ≤ d ∧ p.objects (.client i) = some d) ∧ p.objects (.server i) = none
  | .resolving => (∃ d, 0 ≤ d ∧ p.objects (.client i) = some d) ∧ p.objects (.server i) = some (-1)
  | .connected =>
    (∃ d, 0 ≤ d ∧ p.objects (.client i) = some d) ∧ ∃ d, 0 ≤ d ∧ p.objects (.server i) = some d
  | .ended => p.objects (.client i) = none ∧ p.objects (.server i) = none

structure State.Sound (s : State ι) : Prop where
  listening : s.process.Lives .listening
  temporary : ∀ i, s.process.objects (.temporary i) = none
  fits : ∀ i, Fits s.process i (s.stage i)
  hand : ∀ d ∈ s.process.hand, ∃ i, s.stage i = .accepted d
  accepted : ∀ {i j d}, s.stage i = .accepted d → s.stage j = .accepted d → i = j

omit [DecidableEq ι] in
theorem Fits.frame {p q : Process (Object ι)} {i : ι} {stage : Stage} (h : Fits p i stage)
    (hclient : q.objects (.client i) = p.objects (.client i))
    (hserver : q.objects (.server i) = p.objects (.server i))
    (hhand : ∀ d, stage = .accepted d → d ∈ p.hand → d ∈ q.hand) : Fits q i stage := by
  cases stage with
  | accepted d =>
    obtain ⟨hc, hs, hd⟩ := h
    exact ⟨hclient.trans hc, hserver.trans hs, hhand d rfl hd⟩
  | absent | handling | resolving | connected | ended =>
    unfold Fits at h ⊢
    rw [hclient, hserver]
    exact h

theorem State.Sound.move {s : State ι} (h : s.Sound) {i : ι} {q : Process (Object ι)} {stage : Stage}
    (hobjects : ∀ o, o ≠ .client i → o ≠ .server i → q.objects o = s.process.objects o)
    (hfits : Fits q i stage)
    (hhand : ∀ d, d ∈ q.hand ↔ (d ∈ s.process.hand ∧ s.stage i ≠ .accepted d) ∨ stage = .accepted d)
    (hnew : ∀ d, stage = .accepted d → d ∉ s.process.hand) : (s.move i q stage).Sound := by
  have hstage : ∀ j, (s.move i q stage).stage j = if j = i then stage else s.stage j := fun j => by
    simp [State.move, Function.update_apply]
  refine ⟨?_, fun j => ?_, fun j => ?_, fun d hd => ?_, fun {j k d} hj hk => ?_⟩
  · have hlistening := h.listening
    unfold Process.Lives at hlistening ⊢
    rw [← hobjects .listening nofun nofun] at hlistening
    exact hlistening
  · exact (hobjects (.temporary j) nofun nofun).trans (h.temporary j)
  · rw [hstage]
    split
    · next hj => exact hj ▸ hfits
    · next hj =>
      refine (h.fits j).frame (hobjects _ ?_ nofun) (hobjects _ nofun ?_) fun d hjd hd => ?_
      · exact fun heq => hj (Object.client.inj heq)
      · exact fun heq => hj (Object.server.inj heq)
      · exact (hhand d).mpr (.inl ⟨hd, fun hid => hj (h.accepted hjd hid)⟩)
  · rcases (hhand d).mp hd with ⟨hd, hid⟩ | hid
    · obtain ⟨j, hj⟩ := h.hand d hd
      refine ⟨j, ?_⟩
      have hji : j ≠ i := by
        rintro rfl
        exact hid hj
      exact (hstage j).trans ((if_neg hji).trans hj)
    · exact ⟨i, (hstage i).trans ((if_pos rfl).trans hid)⟩
  · rw [hstage] at hj hk
    have hmem : ∀ l, s.stage l = .accepted d → d ∈ s.process.hand := fun l hl => by
      have hfit := h.fits l
      rw [hl] at hfit
      exact hfit.2.2
    split at hj <;> split at hk
    · next hji hki => exact hji.trans hki.symm
    · exact absurd (hmem k hk) (hnew d hj)
    · exact absurd (hmem j hj) (hnew d hk)
    · exact h.accepted hj hk

/-! ## One step -/

omit [DecidableEq ι] in
theorem not_lives {p : Process (Object ι)} {o : Object ι} (h : p.objects o = none) : ¬p.Lives o := by
  unfold Process.Lives
  rw [h]
  exact Bool.false_ne_true

omit [DecidableEq ι] in
theorem lives {p : Process (Object ι)} {o : Object ι} {d : Int} (h : p.objects o = some d) : p.Lives o := by
  unfold Process.Lives
  rw [h]
  rfl

omit [DecidableEq ι] in
theorem client_ne_server (i : ι) : Object.client i ≠ .server i := nofun

omit [DecidableEq ι] in
theorem server_ne_client (i : ι) : Object.server i ≠ .client i := nofun

theorem Step.leads {s t : State ι} (hs : s.Sound) (h : Step s t) :
    (program (Object ι)).Leads s.process t.process := by
  have hone : ∀ op, s.process.Allows op → (program (Object ι)).Leads s.process (s.process.exec op) :=
    fun op hop => System.Leads.of_step (S := program (Object ι)) ⟨op, hop, rfl⟩
  cases h with
  | accept _ _ _ hfd => exact hone (.call _) hfd
  | @handle i d hi =>
    have hfit := hs.fits i
    rw [hi] at hfit
    exact hone (.construct .socket (.client i) d) ⟨not_lives hfit.1, .inr hfit.2.2⟩
  | @fetch i hi =>
    have hfit := hs.fits i
    rw [hi] at hfit
    exact hone (.construct .socket (.server i) (-1)) ⟨not_lives hfit.2, .inl (by decide)⟩
  | @connect i d hi hpos hfd =>
    have hfit := hs.fits i
    rw [hi] at hfit
    exact leads_execAll (allowsAll_openSocket (lives hfit.2) (not_lives (hs.temporary (some i))) hpos hfd)
  | @leave i hi =>
    have hfit := hs.fits i
    rcases hi with hi | hi <;> rw [hi] at hfit
    · exact hone (.destroy .socket (.server i)) (lives hfit.2)
    · obtain ⟨-, d, -, hd⟩ := hfit
      exact hone (.destroy .socket (.server i)) (lives hd)
  | @finish i hi =>
    have hfit := hs.fits i
    rw [hi] at hfit
    obtain ⟨⟨d, -, hd⟩, -⟩ := hfit
    exact hone (.destroy .socket (.client i)) (lives hd)
  | stop => exact hone (.closeSocket .listening) hs.listening

theorem Step.sound {s t : State ι} (hs : s.Sound) (ho : s.process.Orderly) (h : Step s t) : t.Sound := by
  cases h with
  | @accept i d hi _ hpos hfd =>
    have hfit := hs.fits i
    rw [hi] at hfit
    have hobjects : (s.process.exec (.call d)).objects = s.process.objects := Process.objects_call _ d
    have hhand : (s.process.exec (.call d)).hand = d :: s.process.hand := Process.hand_call _ hpos
    refine hs.move (fun o _ _ => by rw [hobjects]) ⟨?_, ?_, ?_⟩ (fun e => ?_) fun e he => ?_
    · rw [hobjects]
      exact hfit.1
    · rw [hobjects]
      exact hfit.2
    · rw [hhand]
      exact List.mem_cons_self
    · rw [hhand, hi, List.mem_cons]
      simp [or_comm, eq_comm]
    · cases he
      exact fun hmem => hfd (ho.holders.isOpen (Process.holds_hand.mpr hmem))
  | @handle i d hi =>
    have hfit := hs.fits i
    rw [hi] at hfit
    have hobjects : (s.process.exec (.construct .socket (.client i) d)).objects =
        Function.update s.process.objects (.client i) (some d) := rfl
    refine hs.move (fun o hc _ => ?_) ⟨⟨d, ho.hand_pos hfit.2.2, ?_⟩, ?_⟩ (fun e => ?_) nofun
    · rw [hobjects, Function.update_of_ne hc]
    · rw [hobjects, Function.update_self]
    · rw [hobjects, Function.update_of_ne (server_ne_client i)]
      exact hfit.2.1
    · rw [hi]
      refine ho.hand.mem_erase_iff.trans ?_
      simp [and_comm, eq_comm]
  | @fetch i hi =>
    have hfit := hs.fits i
    rw [hi] at hfit
    have hobjects : (s.process.exec (.construct .socket (.server i) (-1))).objects =
        Function.update s.process.objects (.server i) (some (-1)) := rfl
    refine hs.move (fun o _ hc => ?_) ⟨?_, ?_⟩ (fun e => ?_) nofun
    · rw [hobjects, Function.update_of_ne hc]
    · obtain ⟨⟨d, hpos, hd⟩, -⟩ := hfit
      refine ⟨d, hpos, ?_⟩
      rw [hobjects, Function.update_of_ne (client_ne_server i)]
      exact hd
    · rw [hobjects, Function.update_self]
    · have herase : (s.process.exec (.construct .socket (.server i) (-1))).hand = s.process.hand :=
        List.erase_of_not_mem fun hmem => absurd (ho.hand_pos hmem) (by decide)
      rw [herase, hi]
      simp
  | @connect i d hi hpos _ =>
    have hfit := hs.fits i
    rw [hi] at hfit
    have hne : Object.server i ≠ .temporary (some i) := nofun
    have hobjects := objects_openSocket d hne (hs.temporary (some i))
    refine hs.move (fun o _ hc => ?_) ⟨?_, d, hpos, ?_⟩ (fun e => ?_) nofun
    · rw [hobjects, Function.update_of_ne hc]
    · obtain ⟨⟨e, hpos', he⟩, -⟩ := hfit
      refine ⟨e, hpos', ?_⟩
      rw [hobjects, Function.update_of_ne (client_ne_server i)]
      exact he
    · rw [hobjects, Function.update_self]
    · rw [hand_openSocket hpos, hi]
      simp
  | @leave i hi =>
    have hfit := hs.fits i
    have hobjects : (s.process.exec (.destroy .socket (.server i))).objects =
        Function.update s.process.objects (.server i) none := Process.objects_destroy _ .socket _
    have hhand : (s.process.exec (.destroy .socket (.server i))).hand = s.process.hand :=
      Process.hand_destroy _ .socket _
    have hclient : ∃ d, 0 ≤ d ∧ s.process.objects (.client i) = some d := by
      rcases hi with hi | hi <;> rw [hi] at hfit <;> exact hfit.1
    refine hs.move (fun o _ hc => ?_) ⟨?_, ?_⟩ (fun e => ?_) nofun
    · rw [hobjects, Function.update_of_ne hc]
    · obtain ⟨d, hpos, hd⟩ := hclient
      refine ⟨d, hpos, ?_⟩
      rw [hobjects, Function.update_of_ne (client_ne_server i)]
      exact hd
    · rw [hobjects, Function.update_self]
    · rw [hhand]
      rcases hi with hi | hi <;> rw [hi] <;> simp
  | @finish i hi =>
    have hfit := hs.fits i
    rw [hi] at hfit
    have hobjects : (s.process.exec (.destroy .socket (.client i))).objects =
        Function.update s.process.objects (.client i) none := Process.objects_destroy _ .socket _
    have hhand : (s.process.exec (.destroy .socket (.client i))).hand = s.process.hand :=
      Process.hand_destroy _ .socket _
    refine hs.move (fun o hc _ => ?_) ⟨?_, ?_⟩ (fun e => ?_) nofun
    · rw [hobjects, Function.update_of_ne hc]
    · rw [hobjects, Function.update_self]
    · rw [hobjects, Function.update_of_ne (server_ne_client i)]
      exact hfit.2
    · rw [hhand, hi]
      simp
  | stop =>
    have hhand : (s.process.exec (.closeSocket .listening)).hand = s.process.hand := by
      unfold Process.exec Socket.close
      dsimp only
      split <;> rfl
    have hobjects : ∀ o, o ≠ .listening →
        (s.process.exec (.closeSocket .listening)).objects o = s.process.objects o := fun o hne => by
      unfold Process.exec Socket.close
      dsimp only
      split
      · exact Function.update_of_ne hne _ _
      · rfl
    refine ⟨?_, fun i => (hobjects (.temporary i) nofun).trans (hs.temporary i), fun i => ?_, ?_, hs.accepted⟩
    · have hlistening := hs.listening
      unfold Process.exec Socket.close
      dsimp only
      split
      · unfold Process.Lives Process.setFd
        dsimp only
        rw [Function.update_self]
        rfl
      · exact hlistening
    · exact (hs.fits i).frame (hobjects (.client i) nofun) (hobjects (.server i) nofun)
        fun d _ hd => hhand ▸ hd
    · rw [hhand]
      exact hs.hand

/-! ## Whole runs -/

theorem objects_created : ((start (Object ι)).exec (.construct .socket .listening (-1))).objects =
    Function.update (fun _ => none) .listening (some (-1)) := rfl

theorem objects_temporary :
    ((start (Object ι)).exec (.construct .socket .listening (-1))).objects (.temporary none) = none := by
  have hne : (.temporary none : Object ι) ≠ .listening := nofun
  rw [objects_created, Function.update_of_ne hne]

theorem allowsAll_started {fd : Int} (hpos : 0 ≤ fd) :
    (start (Object ι)).AllowsAll
      (.construct .socket .listening (-1) :: openSocket .listening (.temporary none) fd) := by
  have hlives : ((start (Object ι)).exec (.construct .socket .listening (-1))).objects .listening =
      some (-1) := by
    rw [objects_created, Function.update_self]
  exact ⟨⟨not_lives rfl, .inl (by decide)⟩,
    allowsAll_openSocket (lives hlives) (not_lives objects_temporary) hpos List.not_mem_nil⟩

theorem objects_started (fd : Int) :
    (started fd : Process (Object ι)).objects = Function.update (fun _ => none) .listening (some fd) := by
  have hne : Object.listening ≠ (.temporary none : Object ι) := nofun
  refine (objects_openSocket fd hne objects_temporary).trans ?_
  rw [objects_created, Function.update_idem]

theorem sound_init {s : State ι} (h : (proxy ι).init s) : s.Sound := by
  obtain ⟨⟨fd, hpos, hprocess⟩, hstage⟩ := h
  have hhand : s.process.hand = [] := by
    rw [hprocess]
    exact hand_openSocket hpos
  have hnone : ∀ o, o ≠ .listening → s.process.objects o = none := fun o ho => by
    rw [hprocess, objects_started, Function.update_of_ne ho]
  refine ⟨?_, fun i => hnone (.temporary i) nofun, fun i => ?_, fun d hd => ?_, fun {i _ _} hi _ => ?_⟩
  · refine lives (d := fd) ?_
    rw [hprocess, objects_started, Function.update_self]
  · rw [hstage i]
    exact ⟨hnone (.client i) nofun, hnone (.server i) nofun⟩
  · rw [hhand] at hd
    exact absurd hd List.not_mem_nil
  · rw [hstage i] at hi
    cases hi

theorem sound_of_reachable {s : State ι} (h : (proxy ι).Reachable s) :
    s.Sound ∧ (program (Object ι)).Reachable s.process := by
  induction h with
  | init h0 =>
    obtain ⟨⟨fd, hpos, hprocess⟩, -⟩ := id h0
    refine ⟨sound_init h0, ?_⟩
    rw [hprocess]
    exact (System.Reachable.init rfl).leads (leads_execAll (allowsAll_started hpos))
  | step _ hstep ih =>
    obtain ⟨hs, hreach⟩ := ih
    exact ⟨Step.sound hs (orderly_of_reachable hreach) hstep, hreach.leads (Step.leads hs hstep)⟩

omit [DecidableEq ι] in
theorem mem_descriptors {s : State ι} (hs : s.Sound) (i : ι) (d : Int) :
    d ∈ s.descriptors i ↔ s.stage i = .accepted d ∨
      s.process.Holds (.object (.client i)) d ∨ s.process.Holds (.object (.server i)) d := by
  have hfit := hs.fits i
  have hsome : ∀ {o : Object ι} {e : Int}, s.process.objects o = some e → s.process.fd o = e := fun ho => by
    unfold Process.fd
    rw [ho]
    rfl
  have hnone : ∀ {o : Object ι}, s.process.objects o = none → s.process.fd o = -1 := fun ho =>
    Process.fd_of_not_lives (not_lives ho)
  rw [Process.holds_object, Process.holds_object]
  unfold State.descriptors
  cases hstage : s.stage i with
  | absent | ended =>
    rw [hstage] at hfit
    simp only [hnone hfit.1, hnone hfit.2]
    grind
  | accepted e =>
    rw [hstage] at hfit
    simp only [hnone hfit.1, hnone hfit.2.1]
    grind
  | handling =>
    rw [hstage] at hfit
    obtain ⟨⟨e, hpos, he⟩, hserver⟩ := hfit
    simp only [hsome he, hnone hserver]
    grind
  | resolving =>
    rw [hstage] at hfit
    obtain ⟨⟨e, hpos, he⟩, hserver⟩ := hfit
    simp only [hsome he, hsome hserver]
    grind
  | connected =>
    rw [hstage] at hfit
    obtain ⟨⟨e, hpos, he⟩, e', hpos', he'⟩ := hfit
    simp only [hsome he, hsome he']
    grind

omit [DecidableEq ι] in
theorem holder_of_mem {s : State ι} (hs : s.Sound) {i : ι} {d : Int} (hd : d ∈ s.descriptors i) :
    ∃ k, s.process.Holds k d ∧
      ((k = .hand ∧ s.stage i = .accepted d) ∨ k = .object (.client i) ∨ k = .object (.server i)) := by
  rcases (mem_descriptors hs i d).mp hd with hi | hk | hk
  · have hfit := hs.fits i
    rw [hi] at hfit
    exact ⟨.hand, Process.holds_hand.mpr hfit.2.2, .inl ⟨rfl, hi⟩⟩
  · exact ⟨_, hk, .inr (.inl rfl)⟩
  · exact ⟨_, hk, .inr (.inr rfl)⟩

omit [DecidableEq ι] in
theorem mem_listening (s : State ι) (d : Int) : d ∈ s.listening ↔ s.process.Holds (.object .listening) d := by
  rw [Process.holds_object]
  unfold State.listening
  grind

omit [DecidableEq ι] in
theorem mem_table {s : State ι} (hs : s.Sound) (ho : s.process.Orderly) (d : Int) :
    d ∈ s.process.table ↔ d ∈ s.listening ∨ ∃ i, d ∈ s.descriptors i := by
  constructor
  · intro hd
    obtain ⟨k, hk⟩ := ho.holders.held hd
    match k with
    | .hand =>
      obtain ⟨i, hi⟩ := hs.hand d hk
      exact .inr ⟨i, (mem_descriptors hs i d).mpr (.inl hi)⟩
    | .object .listening => exact .inl ((mem_listening s d).mpr hk)
    | .object (.client i) => exact .inr ⟨i, (mem_descriptors hs i d).mpr (.inr (.inl hk))⟩
    | .object (.server i) => exact .inr ⟨i, (mem_descriptors hs i d).mpr (.inr (.inr hk))⟩
    | .object (.temporary i) =>
      have hfd := hk.2
      rw [Process.fd_of_not_lives (not_lives (hs.temporary i))] at hfd
      have hpos := hk.1
      omega
  · rintro (hd | ⟨i, hd⟩)
    · exact ho.holders.isOpen ((mem_listening s d).mp hd)
    · obtain ⟨k, hk, -⟩ := holder_of_mem hs hd
      exact ho.holders.isOpen hk

omit [DecidableEq ι] in
theorem length_descriptors (s : State ι) (i : ι) : (s.descriptors i).length ≤ 2 := by
  unfold State.descriptors
  split <;> simp

omit [DecidableEq ι] in
theorem length_flatMap_descriptors (s : State ι) (active : List ι) :
    (active.flatMap s.descriptors).length ≤ 2 * active.length := by
  induction active with
  | nil => exact Nat.le_refl _
  | cons i active ih =>
    have hi := length_descriptors s i
    rw [List.flatMap_cons, List.length_append, List.length_cons]
    omega

omit [DecidableEq ι] in
theorem length_table {s : State ι} (hs : s.Sound) (ho : s.process.Orderly) {active : List ι}
    (hactive : ∀ i, i ∉ active → s.stage i = .absent ∨ s.stage i = .ended) :
    s.process.table.length ≤ 1 + 2 * active.length := by
  have hsub : s.process.table ⊆ s.listening ++ active.flatMap s.descriptors := by
    intro d hd
    rcases (mem_table hs ho d).mp hd with hd | ⟨i, hd⟩
    · exact List.mem_append_left _ hd
    · refine List.mem_append_right _ (List.mem_flatMap.mpr ⟨i, ?_, hd⟩)
      by_contra hi
      unfold State.descriptors at hd
      rcases hactive i hi with hstage | hstage <;> rw [hstage] at hd <;> exact List.not_mem_nil hd
  have hle := (List.subperm_of_subset ho.table hsub).length_le
  have hlistening : s.listening.length ≤ 1 := by
    unfold State.listening
    split <;> simp
  have hactive' := length_flatMap_descriptors s active
  rw [List.length_append] at hle
  omega

/-- **Descriptors.** With any number of connections, in any order of their steps, no `::close` of the proxy
fails. Its open descriptors are the socket that it listens on and those that the connections still have, at
most two each, and no two connections have one in common. Every other one that it was ever given is closed. -/
theorem sockets_accounted {s : State ι} (h : (proxy ι).Reachable s) :
    (∀ c ∈ s.process.closes, c.2 = true) ∧
      (∀ d, d ∈ s.process.table ↔ d ∈ s.listening ∨ ∃ i, d ∈ s.descriptors i) ∧
      (∀ i j d, d ∈ s.descriptors i → d ∈ s.descriptors j → i = j) ∧
      (∀ i d, d ∈ s.descriptors i → d ∉ s.listening) ∧
      s.process.given.Perm (s.process.closes.map Prod.fst ++ s.process.table) ∧
      ∀ active : List ι, (∀ i, i ∉ active → s.stage i = .absent ∨ s.stage i = .ended) →
        s.process.table.length ≤ 1 + 2 * active.length := by
  obtain ⟨hs, hreach⟩ := sound_of_reachable h
  have ho := orderly_of_reachable hreach
  refine ⟨ho.closed, mem_table hs ho, fun i j d hi hj => ?_, fun i d hi hd => ?_, ho.account,
    fun active hactive => length_table hs ho hactive⟩
  · obtain ⟨k, hk, hki⟩ := holder_of_mem hs hi
    obtain ⟨l, hl, hlj⟩ := holder_of_mem hs hj
    cases ho.holders.unique hk hl
    have haccepted : s.stage i = .accepted d → s.stage j = .accepted d → i = j := hs.accepted
    grind
  · obtain ⟨k, hk, hki⟩ := holder_of_mem hs hi
    cases ho.holders.unique hk ((mem_listening s d).mp hd)
    grind

/-- The operations of one request that a server is asked for, and what they come to. -/
def oneRequest : List (Op (Object Nat)) :=
  [.call 4, .construct .socket (.client 0) 4, .construct .socket (.server 0) (-1)] ++
    openSocket (.server 0) (.temporary (some 0)) 5 ++
      [.destroy .socket (.server 0), .destroy .socket (.client 0)]

theorem sockets_accounted_oneRequest :
    ((started 3).execAll oneRequest).closes = [(4, true), (5, true)] ∧
      ((started 3).execAll oneRequest).given.Perm ([4, 5] ++ ((started 3).execAll oneRequest).table) ∧
      ((started 3).execAll oneRequest).table.length ≤ 1 := by
  have hinit : (proxy Nat).Reachable { process := started 3, stage := fun _ => .absent } :=
    .init ⟨⟨3, by decide, rfl⟩, fun _ => rfl⟩
  have haccepted := hinit.step (@Step.accept Nat _ _ 0 4 rfl (by decide) (by decide) (by decide))
  have hhandled := haccepted.step (@Step.handle Nat _ _ 0 4 rfl)
  have hfetched := hhandled.step (@Step.fetch Nat _ _ 0 rfl)
  have hconnected := hfetched.step (@Step.connect Nat _ _ 0 5 rfl (by decide) (by decide))
  have hleft := hconnected.step (@Step.leave Nat _ _ 0 (.inr rfl))
  have hfinished := hleft.step (@Step.finish Nat _ _ 0 rfl)
  obtain ⟨-, -, -, -, hgiven, hlength⟩ := sockets_accounted hfinished
  refine ⟨by decide, hgiven, hlength [] fun i _ => ?_⟩
  match i with
  | 0 => exact .inr rfl
  | i + 1 => exact .inl rfl

end Proxy.Descriptors
