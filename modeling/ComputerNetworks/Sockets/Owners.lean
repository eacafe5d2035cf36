import ComputerNetworks.Lib.Holders
import ComputerNetworks.Lib.System
import Mathlib.Logic.Function.Basic
import Mathlib.Tactic.Common

/-!
# The owners of descriptors

`UniqueFd` of `rdt_common.hpp` and of the pinger, `Socket` of the proxy, `UDPSocket` and `TCPSocket` of the
resolver: objects that close a descriptor when they die.
-/

universe u

open Lib

namespace Sockets

variable {ο : Type u} [DecidableEq ο]

/-! ## The classes -/

structure Process (ο : Type u) where
  /-- The descriptors that the system has open for the process. -/
  table : List Int
  /-- Those in a variable of the program, which has to see to them itself. -/
  hand : List Int
  /-- The field `fd_` of each object that lives. -/
  objects : ο → Option Int
  /-- All that the system has given, newest first. -/
  given : List Int
  /-- The calls of `::close`, newest first, and whether they succeeded. -/
  closes : List (Int × Bool)

namespace Process

def fd (p : Process ο) (o : ο) : Int := (p.objects o).getD (-1)

def setFd (p : Process ο) (o : ο) (d : Int) : Process ο :=
  { p with objects := Function.update p.objects o (some d) }

/-- The object is no more. -/
def forget (p : Process ο) (o : ο) : Process ο :=
  { p with objects := Function.update p.objects o none }

/-- `socket` or `accept`, by their answer. -/
def give (p : Process ο) (answer : Int) : Process ο :=
  if 0 ≤ answer then { p with table := answer :: p.table, given := answer :: p.given } else p

/-- `::close`. It fails for what is not open. -/
def close (p : Process ο) (d : Int) : Process ο :=
  { p with table := p.table.erase d, closes := (d, decide (d ∈ p.table)) :: p.closes }

def closeFd (p : Process ο) (o : ο) : Process ο := if 0 ≤ p.fd o then p.close (p.fd o) else p

end Process

/-- `fd_ = other.fd_; other.fd_ = -1;` -/
def take (p : Process ο) (o other : ο) : Process ο := (p.setFd o (p.fd other)).setFd other (-1)

namespace UniqueFd

def construct (p : Process ο) (o : ο) (fd : Int) : Process ο := p.setFd o fd

def reset (p : Process ο) (o : ο) (newFd : Int) : Process ο := (p.closeFd o).setFd o newFd

def moveConstruct (p : Process ο) (o other : ο) : Process ο := take p o other

def moveAssign (p : Process ο) (o other : ο) : Process ο :=
  if o = other then p else take (reset p o (-1)) o other

def destroy (p : Process ο) (o : ο) : Process ο := (reset p o (-1)).forget o

end UniqueFd

namespace Socket

def construct (p : Process ο) (o : ο) (fd : Int) : Process ο := p.setFd o fd

def close (p : Process ο) (o : ο) : Process ο :=
  if 0 ≤ p.fd o then (p.close (p.fd o)).setFd o (-1) else p

def release (p : Process ο) (o : ο) : Int × Process ο := (p.fd o, p.setFd o (-1))

def moveConstruct (p : Process ο) (o other : ο) : Process ο := take p o other

def moveAssign (p : Process ο) (o other : ο) : Process ο :=
  if o = other then p else take (close p o) o other

def destroy (p : Process ο) (o : ο) : Process ο := (close p o).forget o

end Socket

namespace UDPSocket

/-- With what `socket` gives. -/
def construct (p : Process ο) (o : ο) (answer : Int) : Process ο := (p.give answer).setFd o answer

def moveConstruct (p : Process ο) (o other : ο) : Process ο := take p o other

def moveAssign (p : Process ο) (o other : ο) : Process ο :=
  if o = other then p else take (p.closeFd o) o other

def destroy (p : Process ο) (o : ο) : Process ο := (p.closeFd o).forget o

end UDPSocket

namespace TCPSocket

def construct (p : Process ο) (o : ο) (answer : Int) : Process ο := UDPSocket.construct p o answer

def moveConstruct (p : Process ο) (o other : ο) : Process ο := UDPSocket.moveConstruct p o other

def moveAssign (p : Process ο) (o other : ο) : Process ο := UDPSocket.moveAssign p o other

def destroy (p : Process ο) (o : ο) : Process ο := UDPSocket.destroy p o

end TCPSocket

/-! ## They do the same -/

namespace Process

@[simp] theorem setFd_setFd (p : Process ο) (o : ο) (d e : Int) :
    (p.setFd o d).setFd o e = p.setFd o e := by
  simp [setFd]

@[simp] theorem forget_setFd (p : Process ο) (o : ο) (d : Int) : (p.setFd o d).forget o = p.forget o := by
  simp [setFd, forget]

@[simp] theorem fd_setFd (p : Process ο) (o : ο) (d : Int) : (p.setFd o d).fd o = d := by
  simp [setFd, fd]

theorem fd_setFd_of_ne (p : Process ο) {o other : ο} (h : other ≠ o) (d : Int) :
    (p.setFd o d).fd other = p.fd other := by
  simp [setFd, fd, h]

end Process

theorem take_setFd (p : Process ο) {o other : ο} (h : other ≠ o) (d : Int) :
    take (p.setFd o d) o other = take p o other := by
  unfold take
  rw [Process.fd_setFd_of_ne p h, Process.setFd_setFd]

theorem Socket.close_setFd (p : Process ο) (o : ο) :
    (Socket.close p o).setFd o (-1) = UniqueFd.reset p o (-1) := by
  unfold Socket.close UniqueFd.reset Process.closeFd
  split
  · exact Process.setFd_setFd _ _ _ _
  · rfl

theorem Socket.moveAssign_eq (p : Process ο) (o other : ο) :
    Socket.moveAssign p o other = UniqueFd.moveAssign p o other := by
  unfold Socket.moveAssign UniqueFd.moveAssign
  split
  · rfl
  · next h => rw [← Socket.close_setFd, take_setFd _ (Ne.symm h)]

theorem Socket.destroy_eq (p : Process ο) (o : ο) : Socket.destroy p o = UniqueFd.destroy p o := by
  unfold Socket.destroy UniqueFd.destroy
  rw [← Socket.close_setFd, Process.forget_setFd]

theorem UDPSocket.moveAssign_eq (p : Process ο) (o other : ο) :
    UDPSocket.moveAssign p o other = UniqueFd.moveAssign p o other := by
  unfold UDPSocket.moveAssign UniqueFd.moveAssign UniqueFd.reset
  split
  · rfl
  · next h => rw [take_setFd _ (Ne.symm h)]

theorem UDPSocket.destroy_eq (p : Process ο) (o : ο) : UDPSocket.destroy p o = UniqueFd.destroy p o := by
  unfold UDPSocket.destroy UniqueFd.destroy UniqueFd.reset
  rw [Process.forget_setFd]

/-! ## Programs -/

inductive Class where
  | uniqueFd
  | socket
  | udpSocket
  | tcpSocket
  deriving DecidableEq, Repr

def Class.construct : Class → Process ο → ο → Int → Process ο
  | .uniqueFd => UniqueFd.construct
  | .socket => Socket.construct
  | .udpSocket => UDPSocket.construct
  | .tcpSocket => TCPSocket.construct

/-- Its constructor takes no descriptor, but calls `socket`. -/
def Class.opens : Class → Bool
  | .udpSocket | .tcpSocket => true
  | _ => false

def Class.moveConstruct : Class → Process ο → ο → ο → Process ο
  | .uniqueFd => UniqueFd.moveConstruct
  | .socket => Socket.moveConstruct
  | .udpSocket => UDPSocket.moveConstruct
  | .tcpSocket => TCPSocket.moveConstruct

def Class.moveAssign : Class → Process ο → ο → ο → Process ο
  | .uniqueFd => UniqueFd.moveAssign
  | .socket => Socket.moveAssign
  | .udpSocket => UDPSocket.moveAssign
  | .tcpSocket => TCPSocket.moveAssign

def Class.destroy : Class → Process ο → ο → Process ο
  | .uniqueFd => UniqueFd.destroy
  | .socket => Socket.destroy
  | .udpSocket => UDPSocket.destroy
  | .tcpSocket => TCPSocket.destroy

theorem Class.construct_eq (c : Class) (p : Process ο) (o : ο) (fd : Int) :
    c.construct p o fd = if c.opens then UDPSocket.construct p o fd else UniqueFd.construct p o fd := by
  cases c <;> rfl

theorem Class.moveConstruct_eq (c : Class) (p : Process ο) (o other : ο) :
    c.moveConstruct p o other = take p o other := by
  cases c <;> rfl

theorem Class.moveAssign_eq (c : Class) (p : Process ο) (o other : ο) :
    c.moveAssign p o other = UniqueFd.moveAssign p o other := by
  cases c with
  | uniqueFd => rfl
  | socket => exact Socket.moveAssign_eq p o other
  | udpSocket => exact UDPSocket.moveAssign_eq p o other
  | tcpSocket => exact UDPSocket.moveAssign_eq p o other

theorem Class.destroy_eq (c : Class) (p : Process ο) (o : ο) : c.destroy p o = UniqueFd.destroy p o := by
  cases c with
  | uniqueFd => rfl
  | socket => exact Socket.destroy_eq p o
  | udpSocket => exact UDPSocket.destroy_eq p o
  | tcpSocket => exact UDPSocket.destroy_eq p o

/-- What a program does about its descriptors. `call` is `socket` or `accept`, with the answer of the system.
A constructor is given a descriptor, or calls `socket` itself and has that answer. -/
inductive Op (ο : Type u) where
  | call (answer : Int)
  | close (d : Int)
  | construct (c : Class) (o : ο) (fd : Int)
  | moveConstruct (c : Class) (o other : ο)
  | moveAssign (c : Class) (o other : ο)
  | reset (o : ο) (newFd : Int)
  | closeSocket (o : ο)
  | release (o : ο)
  | destroy (c : Class) (o : ο)

namespace Process

/-- The program now has a descriptor in a variable. -/
def pick (p : Process ο) (d : Int) : Process ο := if 0 ≤ d then { p with hand := d :: p.hand } else p

/-- It has given one to an object, or closed it. -/
def drop (p : Process ο) (d : Int) : Process ο := { p with hand := p.hand.erase d }

def exec (p : Process ο) : Op ο → Process ο
  | .call answer => (p.give answer).pick answer
  | .close d => (p.close d).drop d
  | .construct c o fd => (c.construct p o fd).drop fd
  | .moveConstruct c o other => c.moveConstruct p o other
  | .moveAssign c o other => c.moveAssign p o other
  | .reset o newFd => (UniqueFd.reset p o newFd).drop newFd
  | .closeSocket o => Socket.close p o
  | .release o => (Socket.release p o).2.pick (Socket.release p o).1
  | .destroy c o => c.destroy p o

def execAll (p : Process ο) (ops : List (Op ο)) : Process ο := ops.foldl exec p

def Lives (p : Process ο) (o : ο) : Prop := (p.objects o).isSome

/-- An object may be given what the program has to see to, or the failure of a call. -/
def InHand (p : Process ο) (fd : Int) : Prop := fd < 0 ∨ fd ∈ p.hand

/-- The system gives no descriptor that is open. The program uses objects while they live. It gives to them, and
closes itself, only what is in its hand, so each descriptor to one of them at most. -/
def Allows (p : Process ο) : Op ο → Prop
  | .call answer => answer ∉ p.table
  | .close d => d ∈ p.hand
  | .construct c o fd => ¬p.Lives o ∧ if c.opens then fd ∉ p.table else p.InHand fd
  | .moveConstruct _ o other => ¬p.Lives o ∧ p.Lives other
  | .moveAssign _ o other => p.Lives o ∧ p.Lives other
  | .reset o newFd => p.Lives o ∧ p.InHand newFd
  | .closeSocket o => p.Lives o
  | .release o => p.Lives o
  | .destroy _ o => p.Lives o

instance (p : Process ο) (o : ο) : Decidable (p.Lives o) :=
  inferInstanceAs (Decidable ((p.objects o).isSome = true))

instance (p : Process ο) (fd : Int) : Decidable (p.InHand fd) :=
  inferInstanceAs (Decidable (fd < 0 ∨ fd ∈ p.hand))

instance (p : Process ο) : (op : Op ο) → Decidable (p.Allows op)
  | .call answer => inferInstanceAs (Decidable (answer ∉ p.table))
  | .close d => inferInstanceAs (Decidable (d ∈ p.hand))
  | .construct c o fd =>
    inferInstanceAs (Decidable (¬p.Lives o ∧ if c.opens then fd ∉ p.table else p.InHand fd))
  | .moveConstruct _ o other => inferInstanceAs (Decidable (¬p.Lives o ∧ p.Lives other))
  | .moveAssign _ o other => inferInstanceAs (Decidable (p.Lives o ∧ p.Lives other))
  | .reset o newFd => inferInstanceAs (Decidable (p.Lives o ∧ p.InHand newFd))
  | .closeSocket o => inferInstanceAs (Decidable (p.Lives o))
  | .release o => inferInstanceAs (Decidable (p.Lives o))
  | .destroy _ o => inferInstanceAs (Decidable (p.Lives o))

def AllowsAll (p : Process ο) : List (Op ο) → Prop
  | [] => True
  | op :: ops => p.Allows op ∧ (p.exec op).AllowsAll ops

end Process

def start (ο : Type u) : Process ο where
  table := []
  hand := []
  objects _ := none
  given := []
  closes := []

def program (ο : Type u) [DecidableEq ο] : System (Process ο) where
  init p := p = start ο
  step p q := ∃ op, p.Allows op ∧ q = p.exec op

/-! ## Each descriptor has one owner -/

inductive Holder (ο : Type u) where
  | hand
  | object (o : ο)

def Process.Holds (p : Process ο) : Holder ο → Int → Prop
  | .hand, d => d ∈ p.hand
  | .object o, d => 0 ≤ d ∧ p.fd o = d

structure Process.Orderly (p : Process ο) : Prop where
  holders : OneHolder (· ∈ p.table) p.Holds
  table : p.table.Nodup
  hand : p.hand.Nodup
  valid : ∀ {d}, d ∈ p.table → 0 ≤ d
  closed : ∀ c ∈ p.closes, c.2 = true
  account : p.given.Perm (p.closes.map Prod.fst ++ p.table)

namespace Process

variable {p q : Process ο} {o other : ο} {d : Int}

theorem fd_setFd_eq (p : Process ο) (o x : ο) (d : Int) :
    (p.setFd o d).fd x = if x = o then d else p.fd x := by
  split
  · next h => rw [h, fd_setFd]
  · next h => exact fd_setFd_of_ne p h d

theorem fd_forget (p : Process ο) (o x : ο) : (p.forget o).fd x = if x = o then -1 else p.fd x := by
  unfold forget fd
  split
  · next h => simp [h]
  · next h => simp [h]

omit [DecidableEq ο] in
theorem fd_of_not_lives (h : ¬p.Lives o) : p.fd o = -1 := by
  unfold Lives at h
  unfold fd
  cases hobj : p.objects o with
  | none => rfl
  | some d => simp [hobj] at h

omit [DecidableEq ο] in
@[simp] theorem fd_close (p : Process ο) (d : Int) : (p.close d).fd = p.fd := rfl

omit [DecidableEq ο] in
@[simp] theorem fd_drop (p : Process ο) (d : Int) : (p.drop d).fd = p.fd := rfl

omit [DecidableEq ο] in
@[simp] theorem fd_pick (p : Process ο) (d : Int) : (p.pick d).fd = p.fd := by
  unfold pick
  split <;> rfl

omit [DecidableEq ο] in
theorem holds_hand : p.Holds .hand d ↔ d ∈ p.hand := Iff.rfl

omit [DecidableEq ο] in
theorem holds_object : p.Holds (.object o) d ↔ 0 ≤ d ∧ p.fd o = d := Iff.rfl

omit [DecidableEq ο] in
theorem Orderly.hand_pos (h : p.Orderly) (hd : d ∈ p.hand) : 0 ≤ d :=
  h.valid (h.holders.isOpen (holds_hand.mpr hd))

omit [DecidableEq ο] in
theorem Orderly.fd_ne (h : p.Orderly) (hd : d ∈ p.hand) (o : ο) : p.fd o ≠ d := by
  intro hfd
  cases h.holders.unique (holds_hand.mpr hd) (holds_object.mpr ⟨h.hand_pos hd, hfd⟩)

omit [DecidableEq ο] in
theorem Orderly.fd_inj (h : p.Orderly) (hpos : 0 ≤ p.fd o) (heq : p.fd other = p.fd o) : other = o := by
  cases h.holders.unique (holds_object.mpr ⟨hpos, rfl⟩) (holds_object.mpr ⟨hpos, heq⟩)
  rfl

omit [DecidableEq ο] in
theorem Orderly.congr (h : p.Orderly) (htable : q.table = p.table) (hgiven : q.given = p.given)
    (hcloses : q.closes = p.closes) (hhand : q.hand = p.hand)
    (hfd : ∀ x d, 0 ≤ d → (q.fd x = d ↔ p.fd x = d)) : q.Orderly where
  holders := by
    refine h.holders.congr (fun d => by rw [htable]) fun k d => ?_
    cases k with
    | hand => exact iff_of_eq (congrArg (d ∈ ·) hhand)
    | object x => exact and_congr_right (hfd x d)
  table := htable ▸ h.table
  hand := hhand ▸ h.hand
  valid hd := h.valid (htable ▸ hd)
  closed := hcloses ▸ h.closed
  account := by rw [hgiven, hcloses, htable]; exact h.account

omit [DecidableEq ο] in
theorem Orderly.pass (h : p.Orderly) {k l : Holder ο} (hk : p.Holds k d) (htable : q.table = p.table)
    (hgiven : q.given = p.given) (hcloses : q.closes = p.closes) (hhand : q.hand.Nodup)
    (hholds : ∀ m x, q.Holds m x ↔ (m = l ∧ x = d) ∨ (x ≠ d ∧ p.Holds m x)) : q.Orderly where
  holders := h.holders.pass hk (fun x => by rw [htable]) hholds
  table := htable ▸ h.table
  hand := hhand
  valid hd := h.valid (htable ▸ hd)
  closed := hcloses ▸ h.closed
  account := by rw [hgiven, hcloses, htable]; exact h.account

omit [DecidableEq ο] in
theorem Orderly.leave (h : p.Orderly) (hd : d ∈ p.table) (htable : q.table = p.table.erase d)
    (hgiven : q.given = p.given) (hcloses : q.closes = (d, decide (d ∈ p.table)) :: p.closes)
    (hhand : q.hand.Nodup) (hholds : ∀ m x, q.Holds m x ↔ x ≠ d ∧ p.Holds m x) : q.Orderly where
  holders := h.holders.leave (fun x => by rw [htable]; exact h.table.mem_erase_iff) hholds
  table := htable ▸ h.table.erase d
  hand := hhand
  valid hx := h.valid (List.mem_of_mem_erase (htable ▸ hx))
  closed := by
    intro c hc
    rw [hcloses] at hc
    rcases List.mem_cons.mp hc with rfl | hc
    · exact decide_eq_true hd
    · exact h.closed c hc
  account := by
    rw [hgiven, hcloses, htable, List.map_cons, List.cons_append]
    have hperm : (p.closes.map Prod.fst ++ p.table).Perm (p.closes.map Prod.fst ++ d :: p.table.erase d) :=
      (List.perm_cons_erase hd).append_left _
    exact h.account.trans (hperm.trans List.perm_middle)

/-! ## One operation at a time -/

omit [DecidableEq ο] in
theorem Orderly.call (h : p.Orderly) (hd : d ∉ p.table) : ((p.give d).pick d).Orderly := by
  by_cases hpos : 0 ≤ d
  swap
  · rw [give, pick, if_neg hpos, if_neg hpos]
    exact h
  rw [give, pick, if_pos hpos, if_pos hpos]
  refine ⟨h.holders.enter .hand hd (fun x => List.mem_cons) fun k x => ?_,
    List.nodup_cons.mpr ⟨hd, h.table⟩, ?_, ?_, h.closed, ?_⟩
  · cases k with
    | hand => simp [holds_hand]
    | object x => simp [holds_object, fd]
  · exact List.nodup_cons.mpr ⟨fun hmem => hd (h.holders.isOpen (holds_hand.mpr hmem)), h.hand⟩
  · intro x hx
    rcases List.mem_cons.mp hx with rfl | hx
    · exact hpos
    · exact h.valid hx
  · exact (h.account.cons d).trans List.perm_middle.symm

omit [DecidableEq ο] in
theorem Orderly.close (h : p.Orderly) (hd : d ∈ p.hand) : ((p.close d).drop d).Orderly := by
  have hopen : d ∈ p.table := h.holders.isOpen (holds_hand.mpr hd)
  refine h.leave hopen rfl rfl rfl (h.hand.erase d) fun k x => ?_
  cases k with
  | hand => exact h.hand.mem_erase_iff
  | object o =>
    have hne : p.fd o ≠ d := h.fd_ne hd o
    rw [holds_object, holds_object, fd_drop, fd_close]
    grind

theorem Orderly.reset (h : p.Orderly) (o : ο) : (UniqueFd.reset p o (-1)).Orderly := by
  by_cases hpos : 0 ≤ p.fd o
  swap
  · rw [UniqueFd.reset, closeFd, if_neg hpos]
    refine h.congr rfl rfl rfl rfl fun x d hd => ?_
    rw [fd_setFd_eq]
    grind
  rw [UniqueFd.reset, closeFd, if_pos hpos]
  have hhold : p.Holds (.object o) (p.fd o) := ⟨hpos, rfl⟩
  refine h.leave (h.holders.isOpen hhold) rfl rfl rfl h.hand fun k x => ?_
  cases k with
  | hand =>
    have hne : x ∈ p.hand → x ≠ p.fd o := fun hx => (h.fd_ne hx o).symm
    exact ⟨fun hx => ⟨hne hx, hx⟩, fun hx => hx.2⟩
  | object y =>
    have hinj : p.fd y = p.fd o → y = o := h.fd_inj hpos
    rw [holds_object, holds_object, fd_setFd_eq, fd_close]
    grind

theorem Orderly.assign (h : p.Orderly) (hempty : p.fd o < 0) (hd : p.InHand d) :
    ((p.setFd o d).drop d).Orderly := by
  rcases hd with hneg | hhand
  · have hnot : d ∉ p.hand := fun hmem => absurd (h.hand_pos hmem) (Int.not_le.mpr hneg)
    refine h.congr rfl rfl rfl (List.erase_of_not_mem hnot) fun x e he => ?_
    rw [fd_drop, fd_setFd_eq]
    grind
  · refine h.pass (k := .hand) (l := .object o) hhand rfl rfl rfl (h.hand.erase d) fun k x => ?_
    cases k with
    | hand =>
      have herase : x ∈ p.hand.erase d ↔ x ≠ d ∧ x ∈ p.hand := h.hand.mem_erase_iff
      rw [holds_hand, holds_hand]
      refine herase.trans ⟨.inr, ?_⟩
      rintro (⟨hk, -⟩ | hx)
      · cases hk
      · exact hx
    | object y =>
      have hpos : 0 ≤ d := h.hand_pos hhand
      have hne : p.fd y ≠ d := h.fd_ne hhand y
      rw [holds_object, holds_object, fd_drop, fd_setFd_eq]
      grind

theorem Orderly.take (h : p.Orderly) (hempty : p.fd o < 0) (hother : other ≠ o) :
    (take p o other).Orderly := by
  have hfd : ∀ y, (Sockets.take p o other).fd y =
      if y = other then -1 else if y = o then p.fd other else p.fd y :=
    fun y => (fd_setFd_eq _ other y _).trans (by rw [fd_setFd_eq])
  by_cases hpos : 0 ≤ p.fd other
  swap
  · refine h.congr rfl rfl rfl rfl fun x e he => ?_
    rw [hfd]
    grind
  refine h.pass (k := .object other) (l := .object o) ⟨hpos, rfl⟩ rfl rfl rfl h.hand fun k x => ?_
  cases k with
  | hand =>
    have hne : x ∈ p.hand → x ≠ p.fd other := fun hx => (h.fd_ne hx other).symm
    refine ⟨fun hx => .inr ⟨hne hx, hx⟩, ?_⟩
    rintro (⟨hk, -⟩ | ⟨-, hx⟩)
    · cases hk
    · exact hx
  | object y =>
    have hinj : p.fd y = p.fd other → y = other := h.fd_inj hpos
    rw [holds_object, holds_object, hfd]
    grind

theorem Orderly.forget (h : p.Orderly) (hempty : p.fd o < 0) : (p.forget o).Orderly := by
  refine h.congr rfl rfl rfl rfl fun x e he => ?_
  rw [fd_forget]
  grind

theorem Orderly.release (h : p.Orderly) (o : ο) : ((p.setFd o (-1)).pick (p.fd o)).Orderly := by
  by_cases hpos : 0 ≤ p.fd o
  swap
  · rw [pick, if_neg hpos]
    refine h.congr rfl rfl rfl rfl fun x e he => ?_
    rw [fd_setFd_eq]
    grind
  have hnot : p.fd o ∉ p.hand := fun hmem => h.fd_ne hmem o rfl
  have hhand : ((p.setFd o (-1)).pick (p.fd o)).hand = p.fd o :: p.hand := by
    rw [pick, if_pos hpos]
    rfl
  refine h.pass (k := .object o) (l := .hand) ⟨hpos, rfl⟩ ?_ ?_ ?_ ?_ fun k x => ?_
  · rw [pick, if_pos hpos]
    rfl
  · rw [pick, if_pos hpos]
    rfl
  · rw [pick, if_pos hpos]
    rfl
  · rw [hhand]
    exact List.nodup_cons.mpr ⟨hnot, h.hand⟩
  cases k with
  | hand =>
    rw [holds_hand, holds_hand, hhand, List.mem_cons]
    grind
  | object y =>
    have hinj : p.fd y = p.fd o → y = o := h.fd_inj hpos
    rw [holds_object, holds_object, fd_pick, fd_setFd_eq]
    grind

theorem reset_eq (p : Process ο) (o : ο) (d : Int) :
    UniqueFd.reset p o d = (UniqueFd.reset p o (-1)).setFd o d :=
  (setFd_setFd _ o (-1) d).symm

theorem hand_reset (p : Process ο) (o : ο) (d : Int) : (UniqueFd.reset p o d).hand = p.hand := by
  unfold UniqueFd.reset closeFd
  split <;> rfl

theorem fd_reset (p : Process ο) (o : ο) : (UniqueFd.reset p o (-1)).fd o < 0 := by
  rw [UniqueFd.reset, fd_setFd]
  decide

theorem Orderly.moveAssign (h : p.Orderly) (o other : ο) : (UniqueFd.moveAssign p o other).Orderly := by
  unfold UniqueFd.moveAssign
  split
  · exact h
  · next hne => exact (h.reset o).take (fd_reset p o) (Ne.symm hne)

theorem Orderly.closeSocket (h : p.Orderly) (o : ο) : (Socket.close p o).Orderly := by
  have hreset := h.reset o
  unfold Socket.close
  split
  · next hpos =>
    rw [UniqueFd.reset, closeFd, if_pos hpos] at hreset
    exact hreset
  · exact h

theorem opened_eq (p : Process ο) (o : ο) (answer : Int) (hnot : answer ∉ p.hand) :
    (UDPSocket.construct p o answer).drop answer =
      (((p.give answer).pick answer).setFd o answer).drop answer := by
  unfold UDPSocket.construct pick
  have herase : p.hand.erase answer = p.hand := List.erase_of_not_mem hnot
  split
  · next hpos => simp [setFd, drop, give, hpos, herase]
  · next hneg => simp [setFd, drop, give, hneg]

theorem Orderly.opened (h : p.Orderly) (hlives : ¬p.Lives o) (hd : d ∉ p.table) :
    ((UDPSocket.construct p o d).drop d).Orderly := by
  have hnot : d ∉ p.hand := fun hmem => hd (h.holders.isOpen (holds_hand.mpr hmem))
  rw [opened_eq p o d hnot]
  refine (h.call hd).assign ?_ ?_
  · have hfd : ((p.give d).pick d).fd o = p.fd o := by
      rw [fd_pick]
      unfold give
      split <;> rfl
    rw [hfd, fd_of_not_lives hlives]
    decide
  · by_cases hpos : 0 ≤ d
    · refine .inr ?_
      rw [pick, if_pos hpos]
      exact List.mem_cons_self
    · exact .inl (Int.not_le.mp hpos)

theorem Orderly.exec (h : p.Orderly) {op : Op ο} (hop : p.Allows op) : (p.exec op).Orderly := by
  cases op with
  | call answer => exact h.call hop
  | close d => exact h.close hop
  | construct c o fd =>
    have hmay := hop.2
    rw [Process.exec, c.construct_eq]
    split at hmay
    · next hopens => rw [if_pos hopens]; exact h.opened hop.1 hmay
    · next hopens => rw [if_neg hopens]; exact h.assign (by rw [fd_of_not_lives hop.1]; decide) hmay
  | moveConstruct c o other =>
    rw [Process.exec, c.moveConstruct_eq]
    refine h.take (by rw [fd_of_not_lives hop.1]; decide) ?_
    rintro rfl
    exact hop.1 hop.2
  | moveAssign c o other =>
    have hmove := h.moveAssign o other
    rw [← c.moveAssign_eq] at hmove
    exact hmove
  | reset o newFd =>
    have hhand : (UniqueFd.reset p o (-1)).InHand newFd := by
      unfold InHand
      rw [hand_reset]
      exact hop.2
    have hassign := (h.reset o).assign (fd_reset p o) hhand
    rw [← reset_eq] at hassign
    exact hassign
  | closeSocket o => exact h.closeSocket o
  | release o => exact h.release o
  | destroy c o =>
    have hdestroy := (h.reset o).forget (fd_reset p o)
    rw [← UniqueFd.destroy, ← c.destroy_eq] at hdestroy
    exact hdestroy

omit [DecidableEq ο] in
theorem not_holds_start (k : Holder ο) (d : Int) : ¬(start ο).Holds k d := by
  cases k with
  | hand => exact List.not_mem_nil
  | object o =>
    rintro ⟨hpos, hfd⟩
    have hd : -1 = d := hfd
    omega

omit [DecidableEq ο] in
theorem orderly_start : (start ο).Orderly where
  holders := ⟨fun hd => absurd hd List.not_mem_nil, fun hk => absurd hk (not_holds_start _ _),
    fun hk _ => absurd hk (not_holds_start _ _)⟩
  table := List.nodup_nil
  hand := List.nodup_nil
  valid hd := absurd hd List.not_mem_nil
  closed _ hc := absurd hc List.not_mem_nil
  account := List.Perm.nil

end Process

/-! ## What an operation does to the objects -/

namespace Process

variable {p : Process ο} {o : ο} {d : Int}

omit [DecidableEq ο] in
theorem objects_call (p : Process ο) (d : Int) : ((p.give d).pick d).objects = p.objects := by
  unfold give pick
  split <;> rfl

omit [DecidableEq ο] in
theorem hand_call (p : Process ο) (hd : 0 ≤ d) : ((p.give d).pick d).hand = d :: p.hand := by
  rw [give, pick, if_pos hd, if_pos hd]

theorem objects_reset (p : Process ο) (o : ο) (d : Int) :
    (UniqueFd.reset p o d).objects = Function.update p.objects o (some d) := by
  unfold UniqueFd.reset closeFd
  split <;> rfl

theorem objects_destroy (p : Process ο) (c : Class) (o : ο) :
    (c.destroy p o).objects = Function.update p.objects o none := by
  rw [c.destroy_eq]
  unfold UniqueFd.destroy forget
  rw [objects_reset, Function.update_idem]

theorem hand_destroy (p : Process ο) (c : Class) (o : ο) : (c.destroy p o).hand = p.hand := by
  rw [c.destroy_eq]
  exact hand_reset p o (-1)

theorem hand_moveAssign (p : Process ο) (c : Class) (o other : ο) :
    (c.moveAssign p o other).hand = p.hand := by
  rw [c.moveAssign_eq]
  unfold UniqueFd.moveAssign
  split
  · rfl
  · exact hand_reset p o (-1)

theorem objects_moveAssign (p : Process ο) (c : Class) {o other : ο} (hne : o ≠ other) :
    (c.moveAssign p o other).objects =
      Function.update (Function.update p.objects o (some (p.fd other))) other (some (-1)) := by
  have hfd : (UniqueFd.reset p o (-1)).fd other = p.fd other := by
    unfold fd
    rw [objects_reset, Function.update_of_ne (Ne.symm hne)]
  rw [c.moveAssign_eq, UniqueFd.moveAssign, if_neg hne]
  unfold Sockets.take setFd
  dsimp only
  rw [hfd, objects_reset, Function.update_idem]

end Process

/-! ## Whole runs -/

theorem orderly_of_reachable {p : Process ο} (h : (program ο).Reachable p) : p.Orderly := by
  induction h with
  | init h0 => exact h0 ▸ Process.orderly_start
  | step _ hstep ih =>
    obtain ⟨op, hop, rfl⟩ := hstep
    exact ih.exec hop

theorem leads_execAll {p : Process ο} {ops : List (Op ο)} (h : p.AllowsAll ops) :
    (program ο).Leads p (p.execAll ops) := by
  induction ops generalizing p with
  | nil => exact .refl _
  | cons op ops ih => exact (System.Leads.of_step (S := program ο) ⟨op, h.1, rfl⟩).trans (ih h.2)

/-- **Owners.** Whatever a program of this discipline does with its objects, no `::close` fails, and the open
descriptors are those that exactly one object, or the program itself, has. All that were given are closed,
once for each time, or still open, so when all objects are dead and the program has nothing in hand, nothing
is left open. -/
theorem one_owner {p : Process ο} (h : (program ο).Reachable p) :
    (∀ c ∈ p.closes, c.2 = true) ∧ (∀ d, d ∈ p.table ↔ ∃! k, p.Holds k d) ∧
      p.given.Perm (p.closes.map Prod.fst ++ p.table) ∧
      (p.hand = [] → (∀ o, ¬p.Lives o) → p.table = [] ∧ p.given.Perm (p.closes.map Prod.fst)) := by
  have horder := orderly_of_reachable h
  refine ⟨horder.closed, fun d => ⟨horder.holders.existsUnique, fun hd => ?_⟩, horder.account,
    fun hhand hdead => ?_⟩
  · obtain ⟨k, hk, -⟩ := hd
    exact horder.holders.isOpen hk
  · have htable : p.table = [] := by
      refine List.eq_nil_iff_forall_not_mem.mpr fun d hd => ?_
      obtain ⟨k, hk⟩ := horder.holders.held hd
      cases k with
      | hand =>
        rw [Process.holds_hand, hhand] at hk
        exact absurd hk List.not_mem_nil
      | object o =>
        have hfd := hk.2
        rw [Process.fd_of_not_lives (hdead o)] at hfd
        have hpos := hk.1
        omega
    have haccount := horder.account
    rw [htable, List.append_nil] at haccount
    exact ⟨htable, haccount⟩

/-- Three objects: the first takes the descriptor of the second, and all die. -/
def threeObjects : List (Op Nat) :=
  [.call 3, .construct .socket 0 3, .call 4, .construct .socket 1 4, .construct .udpSocket 2 5,
    .moveAssign .socket 0 1, .destroy .udpSocket 2, .destroy .socket 0, .destroy .socket 1]

theorem one_owner_threeObjects :
    ((start Nat).execAll threeObjects).closes = [(4, true), (5, true), (3, true)] ∧
      ((start Nat).execAll threeObjects).table = [] ∧
      ((start Nat).execAll threeObjects).given.Perm
        (((start Nat).execAll threeObjects).closes.map Prod.fst) := by
  have hallows : (start Nat).AllowsAll threeObjects :=
    ⟨by decide, by decide, by decide, by decide, by decide, by decide, by decide, by decide, by decide, trivial⟩
  have hreach : (program Nat).Reachable ((start Nat).execAll threeObjects) :=
    (System.Reachable.init rfl).leads (leads_execAll hallows)
  obtain ⟨-, -, -, hdead⟩ := one_owner hreach
  refine ⟨by decide, hdead rfl fun o => ?_⟩
  match o with
  | 0 => decide
  | 1 => decide
  | 2 => decide
  | o + 3 => exact Bool.false_ne_true

end Sockets
