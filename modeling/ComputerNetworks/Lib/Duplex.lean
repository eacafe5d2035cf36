import ComputerNetworks.Lib.Bytes
import ComputerNetworks.Lib.System

/-!
# A connection between two processes

What `send` and `recv` give on a connection that does not fail. What one side has sent is what the other
side has received, and what is under way; and neither waits for good while the other has something to say.
-/

universe u v

namespace Lib.Duplex

inductive SendResult where
  /-- -1 with `EINTR`. -/
  | interrupted
  /-- -1 with another error. -/
  | failed
  | sent (n : Nat)
  deriving DecidableEq, Repr

/-- What a `recv` of one byte gives. -/
inductive RecvResult where
  | interrupted
  | failed
  | closed
  | byte (c : UInt8)
  deriving DecidableEq, Repr

inductive Result where
  | send (r : SendResult)
  | recv (r : RecvResult)
  deriving DecidableEq, Repr

/-- A process with one socket. -/
structure Process (σ : Type u) where
  step : σ → Result → σ
  /-- The bytes that are given to the `send` it is in. -/
  offers : σ → Option Bytes
  /-- It is in a `recv`. -/
  listens : σ → Prop
  gone : σ → Prop

variable {σ : Type u} {τ : Type v}

/-- One call comes back. A process and the bytes that wait for it, and what it sends. -/
inductive Acts (P : Process σ) (alone : Prop) : σ × Bytes → Bytes → σ × Bytes → Prop where
  | sendInterrupted {s : σ} {inbox data : Bytes} : P.offers s = some data →
      Acts P alone (s, inbox) [] (P.step s (.send .interrupted), inbox)
  | recvInterrupted {s : σ} {inbox : Bytes} : P.listens s →
      Acts P alone (s, inbox) [] (P.step s (.recv .interrupted), inbox)
  | sent {s : σ} {inbox data : Bytes} {n : Nat} : P.offers s = some data → 0 < n → n ≤ data.length →
      Acts P alone (s, inbox) (data.take n) (P.step s (.send (.sent n)), inbox)
  | received {s : σ} {c : UInt8} {inbox : Bytes} : P.listens s →
      Acts P alone (s, c :: inbox) [] (P.step s (.recv (.byte c)), inbox)
  | closed {s : σ} : P.listens s → alone → Acts P alone (s, []) [] (P.step s (.recv .closed), [])

theorem Acts.exists_result {P : Process σ} {alone : Prop} {s s' : σ} {inbox inbox' data : Bytes}
    (h : Acts P alone (s, inbox) data (s', inbox')) : ∃ r, s' = P.step s r := by
  cases h with
  | _ => exact ⟨_, rfl⟩

theorem Acts.called {P : Process σ} {alone : Prop} {s s' : σ} {inbox inbox' data : Bytes}
    (h : Acts P alone (s, inbox) data (s', inbox')) : P.offers s ≠ none ∨ P.listens s := by
  cases h with
  | sendInterrupted hoffers => exact .inl (by rw [hoffers]; exact Option.some_ne_none _)
  | sent hoffers hpos hle => exact .inl (by rw [hoffers]; exact Option.some_ne_none _)
  | recvInterrupted hlistens => exact .inr hlistens
  | received hlistens => exact .inr hlistens
  | closed hlistens halone => exact .inr hlistens

/-- Two processes, and what is under way to each of them. -/
structure Connection (σ : Type u) (τ : Type v) where
  left : σ
  right : τ
  toLeft : Bytes
  toRight : Bytes

inductive Step (P : Process σ) (Q : Process τ) : Connection σ τ → Connection σ τ → Prop where
  | left {c : Connection σ τ} {data inbox : Bytes} {s : σ} :
      Acts P (Q.gone c.right) (c.left, c.toLeft) data (s, inbox) →
      Step P Q c { c with left := s, toLeft := inbox, toRight := c.toRight ++ data }
  | right {c : Connection σ τ} {data inbox : Bytes} {t : τ} :
      Acts Q (P.gone c.left) (c.right, c.toRight) data (t, inbox) →
      Step P Q c { c with right := t, toRight := inbox, toLeft := c.toLeft ++ data }

def connection (P : Process σ) (Q : Process τ) (s : σ) (t : τ) : System (Connection σ τ) where
  init c := c = ⟨s, t, [], []⟩
  step := Step P Q

/-! ## Parties -/

/-- How far a process has come: what it has said, what it has received, and what it has read once it does
not read on. -/
structure Standing where
  said : Bytes
  received : Bytes
  buffer : Option Bytes

section Standing

variable (pending : Bytes → Prop) [DecidablePred pending]

def Standing.say (x : Standing) (data : Bytes) : Standing := { x with said := x.said ++ data }

/-- It reads on as long as what it has is `pending`. -/
def Standing.hear (x : Standing) (c : UInt8) : Standing :=
  { x with
    received := x.received ++ [c]
    buffer := if pending (x.received ++ [c]) then none else some (x.received ++ [c]) }

def Standing.stop (x : Standing) : Standing := { x with buffer := some x.received }

/-- A process with one text to say, which reads until it has enough. -/
structure Party (P : Process σ) (text : Bytes) where
  valid : σ → Prop
  standing : σ → Standing
  said_front : ∀ {s}, valid s → (standing s).said <+: text
  total : ∀ {s}, valid s → (∃ rest, P.offers s = some rest ∧ rest ≠ []) ∨ P.listens s ∨ P.gone s
  reading : ∀ {s}, valid s → P.listens s → (standing s).buffer = none ∧ pending (standing s).received
  sendInterrupted : ∀ {s rest}, P.offers s = some rest → P.step s (.send .interrupted) = s
  recvInterrupted : ∀ {s}, P.listens s → P.step s (.recv .interrupted) = s
  sent : ∀ {s rest n}, valid s → P.offers s = some rest → 0 < n →
    valid (P.step s (.send (.sent n))) ∧
      standing (P.step s (.send (.sent n))) = (standing s).say (rest.take n)
  heard : ∀ {s}, valid s → P.listens s → ∀ c, valid (P.step s (.recv (.byte c))) ∧
    standing (P.step s (.recv (.byte c))) = (standing s).hear pending c
  closed : ∀ {s}, valid s → P.listens s → valid (P.step s (.recv .closed)) ∧
    standing (P.step s (.recv .closed)) = (standing s).stop

/-- What a call can make of where a party is, of what waits for it, and what it sends. -/
inductive Goes (alone : Prop) : Standing × Bytes → Bytes → Standing × Bytes → Prop where
  | waits (x : Standing) (inbox : Bytes) : Goes alone (x, inbox) [] (x, inbox)
  | speaks (x : Standing) (inbox data : Bytes) : Goes alone (x, inbox) data (x.say data, inbox)
  | hears {x : Standing} (c : UInt8) (inbox : Bytes) : x.buffer = none →
      Goes alone (x, c :: inbox) [] (x.hear pending c, inbox)
  | stops {x : Standing} : alone → x.buffer = none → pending x.received →
      Goes alone (x, []) [] (x.stop, [])

/-- How a party comes to its buffer, of what has come and waits. -/
inductive Buffered (before : Option Bytes) (alone : Prop) (come buf inbox : Bytes) : Prop where
  | had : before = some buf → Buffered before alone come buf inbox
  /-- The other side is gone. -/
  | closed : before = none → alone → pending buf → come = buf → Buffered before alone come buf inbox
  | full : ¬ pending buf → come = buf ++ inbox → Buffered before alone come buf inbox

end Standing

section Party

variable {pending : Bytes → Prop} [DecidablePred pending] {alone : Prop}

theorem Goes.conserved {x y : Standing} {inbox inbox' data : Bytes}
    (h : Goes pending alone (x, inbox) data (y, inbox')) :
    y.said = x.said ++ data ∧ x.received ++ inbox = y.received ++ inbox' := by
  cases h with
  | waits => exact ⟨(List.append_nil _).symm, rfl⟩
  | speaks => exact ⟨rfl, rfl⟩
  | hears c inbox hnone => exact ⟨(List.append_nil _).symm, by simp [Standing.hear]⟩
  | stops halone hnone hpending => exact ⟨(List.append_nil _).symm, rfl⟩

theorem Goes.buffered {x y : Standing} {inbox inbox' data buf : Bytes}
    (h : Goes pending alone (x, inbox) data (y, inbox')) (hbuf : y.buffer = some buf) :
    Buffered pending x.buffer alone (x.received ++ inbox) buf inbox' := by
  cases h with
  | waits => exact .had hbuf
  | speaks => exact .had hbuf
  | hears c inbox hnone =>
    change (if pending (x.received ++ [c]) then none else some (x.received ++ [c])) = some buf at hbuf
    split at hbuf
    · cases hbuf
    · rename_i hfull
      obtain rfl := Option.some.inj hbuf
      exact .full hfull (by simp)
  | stops halone hnone hpending =>
    obtain rfl := Option.some.inj hbuf
    exact .closed hnone halone hpending (List.append_nil _)

variable {P : Process σ} {text : Bytes} (A : Party pending P text)

theorem Party.goes {s s' : σ} {inbox inbox' data : Bytes} (hs : A.valid s)
    (h : Acts P alone (s, inbox) data (s', inbox')) :
    A.valid s' ∧ Goes pending alone (A.standing s, inbox) data (A.standing s', inbox') := by
  cases h with
  | sendInterrupted hoffers =>
    rw [A.sendInterrupted hoffers]
    exact ⟨hs, .waits _ _⟩
  | recvInterrupted hlistens =>
    rw [A.recvInterrupted hlistens]
    exact ⟨hs, .waits _ _⟩
  | sent hoffers hpos hle =>
    obtain ⟨hvalid, hstanding⟩ := A.sent hs hoffers hpos
    rw [hstanding]
    exact ⟨hvalid, .speaks _ _ _⟩
  | received hlistens =>
    obtain ⟨hvalid, hstanding⟩ := A.heard hs hlistens _
    rw [hstanding]
    exact ⟨hvalid, .hears _ _ (A.reading hs hlistens).1⟩
  | closed hlistens halone =>
    obtain ⟨hvalid, hstanding⟩ := A.closed hs hlistens
    obtain ⟨hnone, hpending⟩ := A.reading hs hlistens
    rw [hstanding]
    exact ⟨hvalid, .stops halone hnone hpending⟩

/-- The bytes that it has still to send, twice, and those that wait for it. -/
def Party.due (s : σ) (inbox : Bytes) : Nat :=
  2 * (text.length - (A.standing s).said.length) + inbox.length

/-- What is sent was due twice, and waits only once for the other side. -/
theorem Party.due_lt {s s' : σ} {inbox inbox' data : Bytes} (hs : A.valid s)
    (h : Acts P alone (s, inbox) data (s', inbox')) (hless : inbox'.length < data.length + inbox.length) :
    A.due s' inbox' + data.length < A.due s inbox := by
  obtain ⟨hvalid, hgoes⟩ := A.goes hs h
  have hle := (A.said_front hvalid).length_le
  rw [hgoes.conserved.1, List.length_append] at hle
  rw [due, due, hgoes.conserved.1, List.length_append]
  omega

variable (alone) in
theorem Party.goes_on {s : σ} (hs : A.valid s) (inbox : Bytes) :
    (∃ data s' inbox', Acts P alone (s, inbox) data (s', inbox') ∧
      inbox'.length < data.length + inbox.length) ∨ P.listens s ∧ inbox = [] ∨ P.gone s := by
  rcases A.total hs with ⟨rest, hoffers, hne⟩ | hlistens | hgone
  · have hone : 1 ≤ rest.length := List.length_pos_iff.mpr hne
    refine .inl ⟨_, _, _, .sent hoffers one_pos hone, ?_⟩
    rw [List.length_take_of_le hone]
    omega
  · cases inbox with
    | nil => exact .inr (.inl ⟨hlistens, rfl⟩)
    | cons c rest =>
      refine .inl ⟨_, _, _, .received hlistens, ?_⟩
      simp
  · exact .inr (.inr hgone)

end Party

/-! ## Two parties -/

section Connection

variable {pending : Bytes → Prop} [DecidablePred pending] {P : Process σ} {Q : Process τ}
  {text text' : Bytes}

/-- A party at the start. -/
structure Party.Fresh (A : Party pending P text) (s : σ) : Prop where
  valid : A.valid s
  said : (A.standing s).said = []
  received : (A.standing s).received = []

/-- What each side has said is what the other has received, and what is under way. -/
structure Conserved (A : Party pending P text) (B : Party pending Q text') (c : Connection σ τ) : Prop where
  left : A.valid c.left
  right : B.valid c.right
  toRight : (A.standing c.left).said = (B.standing c.right).received ++ c.toRight
  toLeft : (B.standing c.right).said = (A.standing c.left).received ++ c.toLeft

variable {A : Party pending P text} {B : Party pending Q text'} {s : σ} {t : τ} {c : Connection σ τ}

theorem conserved (hs : A.Fresh s) (ht : B.Fresh t) (h : (connection P Q s t).Reachable c) :
    Conserved A B c := by
  induction h with
  | init h0 =>
    rw [h0]
    exact ⟨hs.valid, ht.valid, by simp [hs.said, ht.received], by simp [ht.said, hs.received]⟩
  | step _ hstep ih =>
    cases hstep with
    | left hacts =>
      obtain ⟨hvalid, hgoes⟩ := A.goes ih.left hacts
      obtain ⟨hsaid, hreceived⟩ := hgoes.conserved
      exact ⟨hvalid, ih.right, by rw [hsaid, ih.toRight, List.append_assoc], by rw [ih.toLeft, hreceived]⟩
    | right hacts =>
      obtain ⟨hvalid, hgoes⟩ := B.goes ih.right hacts
      obtain ⟨hsaid, hreceived⟩ := hgoes.conserved
      exact ⟨ih.left, hvalid, by rw [ih.toRight, hreceived], by rw [hsaid, ih.toLeft, List.append_assoc]⟩

variable (A B) in
def Connection.due (c : Connection σ τ) : Nat := A.due c.left c.toLeft + B.due c.right c.toRight

theorem Conserved.goes_on (h : Conserved A B c) :
    (∃ d, Step P Q c d ∧ d.due A B < c.due A B) ∨
      (P.listens c.left ∧ c.toLeft = [] ∨ P.gone c.left) ∧
        (Q.listens c.right ∧ c.toRight = [] ∨ Q.gone c.right) := by
  rcases A.goes_on (Q.gone c.right) h.left c.toLeft with ⟨data, s, inbox, hacts, hless⟩ | hleft
  · have hlt := A.due_lt h.left hacts hless
    refine .inl ⟨_, .left hacts, ?_⟩
    simp only [Connection.due, Party.due, List.length_append] at hlt ⊢
    omega
  rcases B.goes_on (P.gone c.left) h.right c.toRight with ⟨data, t, inbox, hacts, hless⟩ | hright
  · have hlt := B.due_lt h.right hacts hless
    refine .inl ⟨_, .right hacts, ?_⟩
    simp only [Connection.due, Party.due, List.length_append] at hlt ⊢
    omega
  · exact .inr ⟨hleft, hright⟩

end Connection

end Lib.Duplex
