import ComputerNetworks.Exchange.Steps

/-!
# One exchange

A client and the child that serves it recover each other's name and number.
-/

open Lib Lib.Bytes Lib.Duplex

namespace Exchange

/-! ## What was read -/

def exchange (m : Message) : System (Connection Client Child) :=
  connection clientProcess childProcess (.start m.name m.number) .start

/-- What was read is what was sent. -/
structure Whole (m : Message) (c : Connection Client Child) : Prop where
  child : ∀ buf, c.right.buffer = some buf → buf = m.text
  client : ∀ resp, c.left.buffer = some resp → resp = reply.text

theorem exchange_conserved {m : Message} {c : Connection Client Child} (h : (exchange m).Reachable c) :
    Conserved (clientParty m) childParty c := by
  apply conserved _ _ h
  · rw [client_start]
    obtain ⟨hvalid, hsaid, -, hreceived⟩ := client_sends m 0
    exact ⟨hvalid, hsaid, hreceived⟩
  · exact ⟨⟨[], pending_nil, rfl⟩, rfl, rfl⟩

theorem Message.eq_of_prefix (m : Message) {buf : Bytes} (h : buf <+: m.text) (hbuf : ¬ Pending buf) :
    buf = m.text := by
  obtain ⟨rest, heq⟩ := h
  have hrest : rest = [] := by
    by_contra hne
    exact hbuf ((m.pending_iff heq).mpr hne)
  rwa [hrest, List.append_nil] at heq

theorem Child.said_of_gone {s : Child} (h : childProcess.gone s) : s.said = reply.text := by
  cases s with
  | receiving s => cases h
  | sending buf resp total => cases h
  | exited code buf => rfl

theorem Child.said_of_unread {s : Child} (hs : s.Valid) (h : s.buffer = none) : s.said = [] := by
  cases s with
  | receiving s => rfl
  | sending buf resp total => cases h
  | exited code buf =>
    obtain ⟨-, hbuf⟩ := hs
    rw [show buf = none from h] at hbuf
    cases hbuf

theorem Client.exited_of_gone {m : Message} {s : Client} (hs : s.Valid m) (h : clientProcess.gone s) :
    ∃ resp, s = .exited 0 (some resp) := by
  cases s with
  | sending msg total => exact h.elim
  | receiving s => exact h.elim
  | exited code resp =>
    obtain ⟨rfl, hresp⟩ := hs
    obtain ⟨resp, rfl⟩ := Option.isSome_iff_exists.mp hresp
    exact ⟨resp, rfl⟩

theorem Client.buffer_of_gone {m : Message} {s : Client} (hs : s.Valid m) (h : clientProcess.gone s) :
    s.buffer = some s.received := by
  obtain ⟨resp, rfl⟩ := exited_of_gone hs h
  rfl

theorem whole_step {m : Message} {c d : Connection Client Child}
    (hc : Conserved (clientParty m) childParty c) (h : Whole m c)
    (hstep : (exchange m).step c d) : Whole m d := by
  have hclient : c.left.said m = c.right.received ++ c.toRight := hc.toRight
  have hchild : c.right.said = c.left.received ++ c.toLeft := hc.toLeft
  cases hstep with
  | left hacts =>
    refine ⟨h.child, ?_⟩
    intro resp hresp
    cases ((clientParty m).goes hc.left hacts).2.buffered hresp with
    | had hbefore => exact h.client resp hbefore
    | full hfull hcome =>
      refine reply.eq_of_prefix ?_ hfull
      have hsaid : c.right.said <+: reply.text := childParty.said_front hc.right
      rw [hchild.trans hcome] at hsaid
      exact (List.prefix_append resp _).trans hsaid
    | closed hbefore hgone hpending hcome =>
      -- The child has sent the whole reply before it goes, and that is enough.
      rw [← hchild.trans hcome, Child.said_of_gone hgone] at hpending
      exact absurd hpending reply.not_pending
  | right hacts =>
    refine ⟨?_, h.client⟩
    intro buf hbuf
    cases (childParty.goes hc.right hacts).2.buffered hbuf with
    | had hbefore => exact h.child buf hbefore
    | full hfull hcome =>
      refine m.eq_of_prefix ?_ hfull
      have hsaid : c.left.said m <+: m.text := (clientParty m).said_front hc.left
      rw [hclient.trans hcome] at hsaid
      exact (List.prefix_append buf _).trans hsaid
    | closed hbefore hgone hpending hcome =>
      -- The client goes only with a reply, and there is none yet.
      rw [Child.said_of_unread hc.right hbefore,
        h.client _ (Client.buffer_of_gone hc.left hgone)] at hchild
      obtain ⟨hnone, -⟩ := List.append_eq_nil_iff.mp hchild.symm
      exact absurd (hnone ▸ pending_nil) reply.not_pending

theorem whole {m : Message} {c : Connection Client Child} (h : (exchange m).Reachable c) : Whole m c := by
  refine h.invariant (fun _ => exchange_conserved) ?_ fun _ _ hc _ hw hstep => whole_step hc hw hstep
  rintro _ rfl
  obtain ⟨-, -, hbuffer, -⟩ := client_sends m 0
  rw [client_start]
  exact ⟨fun buf hbuf => (by cases hbuf), fun resp hresp => by rw [hbuffer] at hresp; cases hresp⟩

/-! ## Its end -/

def Done (c : Connection Client Child) : Prop :=
  (∃ resp, c.left = .exited 0 (some resp)) ∧ ∃ buf, c.right = .exited 0 (some buf)

theorem Client.said_of_sent {m : Message} {s : Client} (h : clientProcess.listens s ∨ clientProcess.gone s) :
    s.said m = m.text := by
  cases s with
  | sending msg total => exact (h.elim id id).elim
  | receiving s => rfl
  | exited code resp => rfl

theorem Child.exited_of_gone {s : Child} (hs : s.Valid) (h : childProcess.gone s) :
    ∃ buf, s = .exited 0 (some buf) := by
  cases s with
  | receiving s => exact h.elim
  | sending buf resp total => exact h.elim
  | exited code buf =>
    obtain ⟨rfl, hbuf⟩ := hs
    obtain ⟨buf, rfl⟩ := Option.isSome_iff_exists.mp hbuf
    exact ⟨buf, rfl⟩

/-- Neither side waits for the other for good. -/
theorem done_or_due {m : Message} {c : Connection Client Child}
    (hc : Conserved (clientParty m) childParty c) :
    Done c ∨ ∃ d, (exchange m).step c d ∧
      d.due (clientParty m) childParty < c.due (clientParty m) childParty := by
  have hclient : c.left.said m = c.right.received ++ c.toRight := hc.toRight
  have hchild : c.right.said = c.left.received ++ c.toLeft := hc.toLeft
  rcases hc.goes_on with hdue | ⟨hleft, hright⟩
  · exact .inr hdue
  have hsaid : c.left.said m = m.text := Client.said_of_sent (hleft.imp_left And.left)
  rcases hright with ⟨hlistens, hempty⟩ | hgone
  · -- The client has sent its whole message, and the child has it.
    have hpending : Pending c.right.received := (childParty.reading hc.right hlistens).2
    rw [hsaid, hempty, List.append_nil] at hclient
    exact absurd (hclient ▸ hpending) m.not_pending
  · rcases hleft with ⟨hlistens, hempty⟩ | hleft
    · have hpending : Pending c.left.received := ((clientParty m).reading hc.left hlistens).2
      rw [Child.said_of_gone hgone, hempty, List.append_nil] at hchild
      exact absurd (hchild ▸ hpending) reply.not_pending
    · exact .inl ⟨Client.exited_of_gone hc.left hleft, Child.exited_of_gone hc.right hgone⟩

theorem comes_to_end {m : Message} {c : Connection Client Child} (h : (exchange m).Reachable c) :
    ∃ d, (exchange m).Leads c d ∧
      d.left = .exited 0 (some reply.text) ∧ d.right = .exited 0 (some m.text) := by
  obtain ⟨d, hleads, -, ⟨resp, hl⟩, buf, hr⟩ :=
    h.progress (I := fun _ => True) (·.due (clientParty m) childParty) (fun c hc _ => by
      rcases done_or_due (exchange_conserved hc) with hdone | ⟨d, hstep, hlt⟩
      · exact .inl hdone
      · exact .inr ⟨d, .of_step hstep, trivial, hlt⟩) trivial
  have hwhole := whole (h.leads hleads)
  obtain rfl := hwhole.client resp (by rw [hl]; rfl)
  obtain rfl := hwhole.child buf (by rw [hr]; rfl)
  exact ⟨d, hleads, hl, hr⟩

/-- **The round trip.** However the bytes are sent and received, what the child has read is the message and
what the client has read is the reply, and each has the other's name and number. Both can always come to
their ends. -/
theorem exchange_roundTrip (m : Message) (c : Connection Client Child) (h : (exchange m).Reachable c) :
    (∀ buf, c.right.buffer = some buf →
      buf = m.text ∧ (parseLines buf).first = m.name ∧ (parseLines buf).number = m.number) ∧
    (∀ resp, c.left.buffer = some resp →
      resp = reply.text ∧ (parseLines resp).first = serverName ∧
        (parseLines resp).number = serverNumber) ∧
    ∃ d, (exchange m).Leads c d ∧
      d.left = .exited 0 (some reply.text) ∧ d.right = .exited 0 (some m.text) := by
  have hwhole := whole h
  refine ⟨?_, ?_, comes_to_end h⟩
  · intro buf hbuf
    obtain rfl := hwhole.child buf hbuf
    exact ⟨rfl, m.parsed⟩
  · intro resp hresp
    obtain rfl := hwhole.client resp hresp
    exact ⟨rfl, reply.parsed⟩

def clientOfTest : Message where
  name := ofString "Client of Test"
  number := 7
  text := ofString "Client of Test\n7\n"
  plain := by decide
  accepted := by decide +kernel

theorem clientOfTest_read : ∃ c, (exchange clientOfTest).Reachable c ∧
    ∃ buf, c.right.buffer = some buf ∧ (parseLines buf).first = ofString "Client of Test" ∧
      (parseLines buf).number = 7 := by
  have hstart : (exchange clientOfTest).Reachable ⟨.start (ofString "Client of Test") 7, .start, [], []⟩ :=
    .init rfl
  obtain ⟨d, hleads, -, hr⟩ := comes_to_end hstart
  have hd := hstart.leads hleads
  have hbuf : d.right.buffer = some clientOfTest.text := by rw [hr]; rfl
  obtain ⟨-, hname, hnumber⟩ := (exchange_roundTrip clientOfTest d hd).1 _ hbuf
  exact ⟨d, hd, _, hbuf, hname, hnumber⟩

end Exchange
