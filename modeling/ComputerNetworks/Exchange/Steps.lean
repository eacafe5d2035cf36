import ComputerNetworks.Exchange.Lines

/-!
# What the two processes do

The client and the child as the two parties of a connection that does not fail: what each has said, what it
has received, and what is in its buffer.
-/

open Lib Lib.Bytes Lib.Duplex

namespace Exchange

/-! ## The processes -/

def childProcess : Process Child where
  step s r := (child.step s r).1
  offers
    | .sending _ resp total => some (resp.drop total)
    | _ => none
  listens
    | .receiving _ => True
    | _ => False
  gone
    | .exited _ _ => True
    | _ => False

def clientProcess : Process Client where
  step := Client.step
  offers
    | .sending msg total => some (msg.drop total)
    | _ => none
  listens
    | .receiving _ => True
    | _ => False
  gone
    | .exited _ _ => True
    | _ => False

theorem sendAllTurn_sent (len total : Nat) {n : Nat} (h : 0 < n) :
    sendAllTurn len total (.sent n) = sendAllGuard len (total + n) := if_neg h.ne'

/-! ## What the child has said -/

/-- What has been read, from the end of `recv_until_two_newlines` on. -/
def Child.buffer : Child → Option Bytes
  | .receiving _ => none
  | .sending buf _ _ => some buf
  | .exited _ buf => buf

def Child.said : Child → Bytes
  | .receiving _ => []
  | .sending _ resp total => resp.take total
  | .exited _ _ => reply.text

def Child.received : Child → Bytes
  | .receiving s => s.out
  | .sending buf _ _ => buf
  | .exited _ buf => buf.getD []

/-- Nothing has failed. -/
def Child.Valid : Child → Prop
  | .receiving s => ∃ out, Pending out ∧ s = .of out
  | .sending _ resp total => resp = reply.text ∧ total < resp.length
  | .exited code buf => code = 0 ∧ buf.isSome

theorem child_sends (buf : Bytes) (total : Nat) :
    let s := (Child.sends buf reply.text (sendAllGuard reply.text.length total)).1
    s.Valid ∧ s.said = reply.text.take total ∧ s.buffer = some buf := by
  unfold sendAllGuard
  by_cases h : total < reply.text.length
  · rw [if_pos h]
    exact ⟨⟨rfl, h⟩, rfl, rfl⟩
  · rw [if_neg h, List.take_of_length_le (Nat.not_lt.mp h)]
    exact ⟨⟨rfl, rfl⟩, rfl, rfl⟩

theorem Child.received_of_buffer {s : Child} {buf : Bytes} (h : s.buffer = some buf) :
    s.received = buf := by
  cases s with
  | receiving s => cases h
  | sending buf' resp total => exact Option.some.inj h
  | exited code buf' =>
    rw [show buf' = some buf from h]
    rfl

def Child.standing (s : Child) : Standing := ⟨s.said, s.received, s.buffer⟩

def childParty : Party Pending childProcess reply.text where
  valid := Child.Valid
  standing := Child.standing
  said_front {s} h := by
    cases s with
    | receiving s => exact List.nil_prefix
    | sending buf resp total =>
      obtain ⟨rfl, -⟩ := h
      exact List.take_prefix total reply.text
    | exited code buf => exact List.prefix_refl _
  total {s} h := by
    cases s with
    | receiving s => exact .inr (.inl trivial)
    | sending buf resp total =>
      refine .inl ⟨_, rfl, fun hnil => ?_⟩
      exact absurd h.2 (Nat.not_lt.mpr (List.drop_eq_nil_iff.mp hnil))
    | exited code buf => exact .inr (.inr trivial)
  reading {s} h hlistens := by
    cases s with
    | receiving s =>
      obtain ⟨out, hpending, rfl⟩ := h
      exact ⟨rfl, hpending⟩
    | sending buf resp total => exact hlistens.elim
    | exited code buf => exact hlistens.elim
  sendInterrupted {s rest} hoffers := by
    cases s with
    | sending buf resp total => rfl
    | receiving s => cases hoffers
    | exited code buf => cases hoffers
  recvInterrupted {s} hlistens := by
    cases s with
    | receiving s => rfl
    | sending buf resp total => exact hlistens.elim
    | exited code buf => exact hlistens.elim
  sent {s rest n} h hoffers hpos := by
    cases s with
    | sending buf resp total =>
      obtain ⟨rfl, -⟩ := h
      obtain rfl := Option.some.inj hoffers
      have hstep : childProcess.step (.sending buf reply.text total) (.send (.sent n)) =
          (Child.sends buf reply.text (sendAllTurn reply.text.length total (.sent n))).1 := rfl
      obtain ⟨hvalid, hsaid, hbuffer⟩ := child_sends buf (total + n)
      rw [hstep, sendAllTurn_sent _ _ hpos]
      refine ⟨hvalid, ?_⟩
      rw [Child.standing, hsaid, hbuffer, Child.received_of_buffer hbuffer, List.take_add]
      rfl
    | receiving s => cases hoffers
    | exited code buf => cases hoffers
  heard {s} h hlistens c := by
    cases s with
    | receiving s =>
      obtain ⟨out, hpending, rfl⟩ := h
      have hstep : childProcess.step (.receiving (.of out)) (.recv (.byte c)) = _ :=
        congrArg Prod.fst (child_step_byte hpending c)
      have hpos : 0 < reply.text.length := by decide +kernel
      rw [hstep, Child.standing, Standing.hear]
      by_cases hnext : Pending (out ++ [c])
      · rw [if_pos hnext]
        exact ⟨⟨_, hnext, rfl⟩, congrArg (Standing.mk _ _) (if_pos hnext).symm⟩
      · rw [if_neg hnext]
        exact ⟨⟨rfl, hpos⟩, congrArg (Standing.mk _ _) (if_neg hnext).symm⟩
    | sending buf resp total => exact hlistens.elim
    | exited code buf => exact hlistens.elim
  closed {s} h hlistens := by
    cases s with
    | receiving s =>
      have hstep : childProcess.step (.receiving s) (.recv .closed) = .sending s.out reply.text 0 :=
        congrArg Prod.fst (child_step_closed s)
      rw [hstep]
      exact ⟨⟨rfl, by decide +kernel⟩, rfl⟩
    | sending buf resp total => exact hlistens.elim
    | exited code buf => exact hlistens.elim

/-! ## What the client has said -/

def Client.buffer : Client → Option Bytes
  | .sending _ _ => none
  | .receiving _ => none
  | .exited _ resp => resp

def Client.received : Client → Bytes
  | .sending _ _ => []
  | .receiving s => s.out
  | .exited _ resp => resp.getD []

section Client

variable (m : Message)

def Client.said : Client → Bytes
  | .sending msg total => msg.take total
  | .receiving _ => m.text
  | .exited _ _ => m.text

def Client.Valid : Client → Prop
  | .sending msg total => msg = m.text ∧ total < msg.length
  | .receiving s => ∃ out, Pending out ∧ s = .of out
  | .exited code resp => code = 0 ∧ resp.isSome

theorem client_sends (total : Nat) :
    let s := Client.sends m.text (sendAllGuard m.text.length total)
    s.Valid m ∧ s.said m = m.text.take total ∧ s.buffer = none ∧ s.received = [] := by
  unfold sendAllGuard
  by_cases h : total < m.text.length
  · rw [if_pos h]
    exact ⟨⟨rfl, h⟩, rfl, rfl, rfl⟩
  · -- The whole message is out, and the client goes on to the reply.
    rw [if_neg h, List.take_of_length_le (Nat.not_lt.mp h)]
    exact ⟨⟨[], pending_nil, rfl⟩, rfl, rfl, rfl⟩

theorem client_start : Client.start m.name m.number =
    Client.sends m.text (sendAllGuard m.text.length 0) := by
  rw [Client.start, m.accepted]

theorem client_step_byte {out : Bytes} (h : Pending out) (c : UInt8) :
    clientProcess.step (.receiving (.of out)) (.recv (.byte c)) =
      if Pending (out ++ [c]) then .receiving (.of (out ++ [c])) else .exited 0 (some (out ++ [c])) := by
  change Client.recvs (recvTurn bufferSize (.of out) (.byte c)) = _
  rw [recvTurn_byte h]
  split
  · rfl
  · rfl

def Client.standing (s : Client) : Standing := ⟨s.said m, s.received, s.buffer⟩

def clientParty : Party Pending clientProcess m.text where
  valid := Client.Valid m
  standing := Client.standing m
  said_front {s} h := by
    cases s with
    | sending msg total =>
      obtain ⟨rfl, -⟩ := h
      exact List.take_prefix total m.text
    | receiving s => exact List.prefix_refl _
    | exited code resp => exact List.prefix_refl _
  total {s} h := by
    cases s with
    | sending msg total =>
      refine .inl ⟨_, rfl, fun hnil => ?_⟩
      exact absurd h.2 (Nat.not_lt.mpr (List.drop_eq_nil_iff.mp hnil))
    | receiving s => exact .inr (.inl trivial)
    | exited code resp => exact .inr (.inr trivial)
  reading {s} h hlistens := by
    cases s with
    | receiving s =>
      obtain ⟨out, hpending, rfl⟩ := h
      exact ⟨rfl, hpending⟩
    | sending msg total => exact hlistens.elim
    | exited code resp => exact hlistens.elim
  sendInterrupted {s rest} hoffers := by
    cases s with
    | sending msg total => rfl
    | receiving s => cases hoffers
    | exited code resp => cases hoffers
  recvInterrupted {s} hlistens := by
    cases s with
    | receiving s => rfl
    | sending msg total => exact hlistens.elim
    | exited code resp => exact hlistens.elim
  sent {s rest n} h hoffers hpos := by
    cases s with
    | sending msg total =>
      obtain ⟨rfl, -⟩ := h
      obtain rfl := Option.some.inj hoffers
      have hstep : clientProcess.step (.sending m.text total) (.send (.sent n)) =
          Client.sends m.text (sendAllTurn m.text.length total (.sent n)) := rfl
      obtain ⟨hvalid, hsaid, hbuffer, hreceived⟩ := client_sends m (total + n)
      rw [hstep, sendAllTurn_sent _ _ hpos]
      refine ⟨hvalid, ?_⟩
      rw [Client.standing, hsaid, hbuffer, hreceived, List.take_add]
      rfl
    | receiving s => cases hoffers
    | exited code resp => cases hoffers
  heard {s} h hlistens c := by
    cases s with
    | receiving s =>
      obtain ⟨out, hpending, rfl⟩ := h
      rw [client_step_byte hpending, Client.standing, Standing.hear]
      by_cases hnext : Pending (out ++ [c])
      · rw [if_pos hnext]
        exact ⟨⟨_, hnext, rfl⟩, congrArg (Standing.mk _ _) (if_pos hnext).symm⟩
      · rw [if_neg hnext]
        exact ⟨⟨rfl, rfl⟩, congrArg (Standing.mk _ _) (if_neg hnext).symm⟩
    | sending msg total => exact hlistens.elim
    | exited code resp => exact hlistens.elim
  closed {s} h hlistens := by
    cases s with
    | receiving s => exact ⟨⟨rfl, rfl⟩, rfl⟩
    | sending msg total => exact hlistens.elim
    | exited code resp => exact hlistens.elim

end Client

end Exchange
