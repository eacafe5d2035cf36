import ComputerNetworks.Dns.Decode

/-!
# Soundness of the decoder

Where an accepted packet is a message. The question loop refuses a cut packet, but the loops over
the records only break, and no name is ever refused.
-/

open Lib Lib.Bytes

namespace Dns

variable {packet : Bytes} {off stop L : Nat}

/-! ## What soundness asks for -/

/-- The packet is a message with labels of at most `L` bytes, and the lists have its lengths. -/
def IsMessage (L : Nat) (packet : Bytes) (s : Sections) : Prop :=
  ∃ m, MessageAt packet m ∧ (∀ path ∈ m.names, ∀ l ∈ path.labels, l.length ≤ L) ∧
    s.answers.length = m.answers.length ∧ s.authority.length = m.authority.length ∧
    s.additional.length = m.additional.length

/-! ## When the decoder is sound -/

/-- A name of labels of at most `L` bytes runs from `off` to a zero byte; its own bytes end at
`stop`. -/
def RunsToZero (L : Nat) (packet : Bytes) (off stop : Nat) : Prop :=
  ∃ path, NameAt packet off path stop ∧ ∀ l ∈ path.labels, l.length ≤ L

/-- The header check or the question loop returns `false`. -/
def Refused (packet : Bytes) : Prop :=
  packet.length < headerSize ∨ rcode (read16 (packet.drop 2)) ≠ 0 ∨
    skipQuestions packet (read16 (packet.drop 4)).toNat headerSize = .ok none

/-- One turn of the question loop that meets no defect. -/
structure QuestionTurn (L : Nat) (packet : Bytes) (off : Nat) (name : Bytes) (stop : Nat) :
    Prop where
  call : ∃ p, parseDNSName packet off = .ok (name, p) ∧ p + 4 = stop
  fits : stop ≤ packet.length
  name : ∃ p, RunsToZero L packet off p

/-- One turn of a loop over records that meets no defect: the call returns `true`, and its names
are whole. -/
structure RecordTurn (L : Nat) (packet : Bytes) (off : Nat) (rr : DNSResourceRecord) (stop : Nat) :
    Prop where
  call : parseResourceRecord packet off = .ok (some rr, stop)
  owner : ∃ p, RunsToZero L packet off p
  target : rr.type.hasTarget → RunsToZero L packet (stop - rr.dataLength.toNat) stop

/-- The four loops use up their counts, in turns that meet no defect. -/
inductive Clean (L : Nat) (packet : Bytes) : Prop where
  | mk {names : List Bytes} {answers authority additional : List DNSResourceRecord}
      {o₁ o₂ o₃ o₄ : Nat} :
      Walk (QuestionTurn L packet) headerSize names o₁ →
      Walk (RecordTurn L packet) o₁ answers o₂ → Walk (RecordTurn L packet) o₂ authority o₃ →
      Walk (RecordTurn L packet) o₃ additional o₄ →
      names.length = (read16 (packet.drop 4)).toNat →
      answers.length = (read16 (packet.drop 6)).toNat →
      authority.length = (read16 (packet.drop 8)).toNat →
      additional.length = (read16 (packet.drop 10)).toNat → Clean L packet

/-! ## Turns and records -/

theorem questionTurn_of_questionAt {q : Question} (h : QuestionAt packet off q stop)
    (hl : ∀ l ∈ q.name.labels, l.length ≤ L) : ∃ name, QuestionTurn L packet off name stop := by
  cases h with
  | mk hname hfit _ _ =>
    obtain ⟨name, hcall, -⟩ := parseDNSName_of_nameAt hname
    exact ⟨name, ⟨_, hcall, rfl⟩, hfit, _, _, hname, hl⟩

theorem RunsToZero.stop_eq {name : Bytes} {p : Nat} (h : RunsToZero L packet off stop)
    (hcall : parseDNSName packet off = .ok (name, p)) : p = stop := by
  obtain ⟨path, hname, -⟩ := h
  obtain ⟨_, hcall', -⟩ := parseDNSName_of_nameAt hname
  rw [hcall] at hcall'
  cases hcall'
  rfl

theorem QuestionTurn.questionAt {name : Bytes} (h : QuestionTurn L packet off name stop) :
    ∃ q, QuestionAt packet off q stop ∧ ∀ l ∈ q.name.labels, l.length ≤ L := by
  obtain ⟨⟨p, hcall, rfl⟩, hfits, p', hzero⟩ := h
  obtain rfl := hzero.stop_eq hcall
  obtain ⟨path, hname, hl⟩ := hzero
  exact ⟨⟨path, ⟨_⟩, ⟨_⟩⟩, .mk hname hfits rfl rfl, hl⟩

def Record.Within (L : Nat) (r : Record) : Prop := ∀ path ∈ r.names, ∀ l ∈ path.labels, l.length ≤ L

theorem recordTurn_of_recordAt {r : Record} (h : RecordAt packet off r stop) (hl : r.Within L) :
    ∃ rr, RecordTurn L packet off rr stop := by
  obtain ⟨rr, hcall, htype, hlength, -⟩ := parseResourceRecord_of_recordAt h
  obtain @⟨p, howner, hbody⟩ := h
  refine ⟨rr, hcall, ⟨p, _, howner, hl _ ((r.mem_names _).mpr (Or.inl rfl))⟩, fun ht => ?_⟩
  rw [htype] at ht
  have hstart : stop - rr.dataLength.toNat = p + 10 := by rw [hlength, hbody.ends]; omega
  rw [hstart]
  exact ⟨_, hbody.target ht, hl _ ((r.mem_names _).mpr (Or.inr ⟨ht, rfl⟩))⟩

theorem RecordTurn.recordAt {rr : DNSResourceRecord} (h : RecordTurn L packet off rr stop) :
    ∃ r, RecordAt packet off r stop ∧ r.Within L := by
  obtain ⟨hcall, ⟨p', hzero⟩, htarget⟩ := h
  obtain ⟨_, hcall', hread⟩ := parseResourceRecord_spec packet off
  rw [hcall] at hcall'
  cases hcall'
  cases hread with
  | @whole name target p e hlt hname hfit _ =>
    obtain rfl := hzero.stop_eq hname
    obtain ⟨owner, howner, hl⟩ := hzero
    have hlength := slice_length packet (p + 10) (bodyLength packet p) hfit
    -- The target, where the type asks for one.
    obtain ⟨path, hpath⟩ : ∃ path : Path, (⟨read16 (packet.drop p)⟩ : DNSRecordType).hasTarget →
        NameAt packet (p + 10) path (p + 10 + bodyLength packet p) ∧
          ∀ l ∈ path.labels, l.length ≤ L := by
      by_cases ht : (⟨read16 (packet.drop p)⟩ : DNSRecordType).hasTarget
      · have hstart : p + 10 + bodyLength packet p - (rawRecord packet p name).dataLength.toNat =
            p + 10 := Nat.add_sub_cancel _ _
        rw [typed_type, typed_dataLength, hstart] at htarget
        obtain ⟨path, hpath⟩ := htarget ht
        exact ⟨path, fun _ => hpath⟩
      · exact ⟨[], fun h => absurd h ht⟩
    refine ⟨⟨owner, ⟨_⟩, ⟨_⟩, _, slice packet (p + 10) (bodyLength packet p), path⟩,
      .mk howner ⟨?_, hfit, rfl, rfl, rfl, ?_, ?_, fun ht => (hpath ht).1⟩, ?_⟩
    · rw [hlength]
    · rw [hlength, bodyLength]
    · rw [hlength]
    · intro path' hmem
      rcases (Record.mem_names _ _).mp hmem with rfl | ⟨ht, rfl⟩
      · exact hl
      · exact (hpath ht).2

/-! ## Sections -/

theorem forall_right {α β : Type*} {P : β → Prop} {xs : List α} {ys : List β}
    (h : List.Forall₂ (fun _ y => P y) xs ys) : ∀ y ∈ ys, P y := by
  have hflip : List.Forall₂ (fun y (_ : α) => P y) ys xs := h.flip
  exact ((List.forall₂_and_left ys xs).mp (hflip.imp fun _ _ hy => ⟨hy, trivial⟩)).1

theorem turns_of_records {rs : List Record} (h : Walk (RecordAt packet) off rs stop)
    (hl : ∀ r ∈ rs, r.Within L) :
    ∃ rrs, Walk (RecordTurn L packet) off rrs stop ∧ rrs.length = rs.length := by
  obtain ⟨rrs, hwalk, hall⟩ : ∃ rrs, Walk (RecordTurn L packet) off rrs stop ∧
      List.Forall₂ (fun (_ : Record) (_ : DNSResourceRecord) => True) rs rrs :=
    h.map fun r hr _ _ hat => by
      obtain ⟨rr, hturn⟩ := recordTurn_of_recordAt hat (hl r hr)
      exact ⟨rr, hturn, trivial⟩
  exact ⟨rrs, hwalk, hall.length_eq.symm⟩

theorem records_of_turns {rrs : List DNSResourceRecord}
    (h : Walk (RecordTurn L packet) off rrs stop) :
    ∃ rs, Walk (RecordAt packet) off rs stop ∧ rs.length = rrs.length ∧ ∀ r ∈ rs, r.Within L := by
  obtain ⟨rs, hwalk, hall⟩ : ∃ rs, Walk (RecordAt packet) off rs stop ∧
      List.Forall₂ (fun _ (r : Record) => r.Within L) rrs rs :=
    h.map fun _ _ _ _ hturn => hturn.recordAt
  exact ⟨rs, hwalk, hall.length_eq.symm, forall_right hall⟩

theorem questions_of_turns {names : List Bytes}
    (h : Walk (QuestionTurn L packet) off names stop) :
    ∃ qs, Walk (QuestionAt packet) off qs stop ∧ qs.length = names.length ∧
      ∀ q ∈ qs, ∀ l ∈ q.name.labels, l.length ≤ L := by
  obtain ⟨qs, hwalk, hall⟩ : ∃ qs, Walk (QuestionAt packet) off qs stop ∧
      List.Forall₂ (fun _ (q : Question) => ∀ l ∈ q.name.labels, l.length ≤ L) names qs :=
    h.map fun _ _ _ _ hturn => hturn.questionAt
  exact ⟨qs, hwalk, hall.length_eq.symm, forall_right hall⟩

theorem turns_of_questions {qs : List Question} (h : Walk (QuestionAt packet) off qs stop)
    (hl : ∀ q ∈ qs, ∀ l ∈ q.name.labels, l.length ≤ L) :
    ∃ names, Walk (QuestionTurn L packet) off names stop ∧ names.length = qs.length := by
  obtain ⟨names, hwalk, hall⟩ : ∃ names, Walk (QuestionTurn L packet) off names stop ∧
      List.Forall₂ (fun (_ : Question) (_ : Bytes) => True) qs names :=
    h.map fun q hq _ _ hat => by
      obtain ⟨name, hturn⟩ := questionTurn_of_questionAt hat (hl q hq)
      exact ⟨name, hturn, trivial⟩
  exact ⟨names, hwalk, hall.length_eq.symm⟩

/-! ## The theorem -/

theorem Clean.message (h : Clean L packet) (hsize : headerSize ≤ packet.length) :
    ∃ m, MessageAt packet m ∧ ∀ path ∈ m.names, ∀ l ∈ path.labels, l.length ≤ L := by
  obtain ⟨hq, han, hns, har, hlq, hlan, hlns, hlar⟩ := h
  obtain ⟨qs, hwq, hcq, hboundq⟩ := questions_of_turns hq
  obtain ⟨answers, hwan, hcan, hboundan⟩ := records_of_turns han
  obtain ⟨authority, hwns, hcns, hboundns⟩ := records_of_turns hns
  obtain ⟨additional, hwar, hcar, hboundar⟩ := records_of_turns har
  refine ⟨⟨qs, answers, authority, additional⟩, ⟨hsize, ?_, ?_, ?_, ?_, .mk hwq hwan hwns hwar⟩, ?_⟩
  · rw [hcq, hlq]
  · rw [hcan, hlan]
  · rw [hcns, hlns]
  · rw [hcar, hlar]
  · refine (Message.forall_names _ _).mpr ⟨hboundq, fun r hr => ?_⟩
    simp only [Message.records, List.mem_append] at hr
    rcases hr with (hr | hr) | hr
    · exact hboundan r hr
    · exact hboundns r hr
    · exact hboundar r hr

theorem clean_of_message {m : Message} (h : MessageAt packet m)
    (hl : ∀ path ∈ m.names, ∀ l ∈ path.labels, l.length ≤ L) : Clean L packet := by
  obtain ⟨hq, han, hns, har⟩ := h.sections
  obtain ⟨hlq, hlr⟩ := (m.forall_names _).mp hl
  obtain ⟨names, hwq, hcq⟩ := turns_of_questions hq hlq
  obtain ⟨answers, hwan, hcan⟩ :=
    turns_of_records han fun r hr => hlr r (by simp [Message.records, hr])
  obtain ⟨authority, hwns, hcns⟩ :=
    turns_of_records hns fun r hr => hlr r (by simp [Message.records, hr])
  obtain ⟨additional, hwar, hcar⟩ :=
    turns_of_records har fun r hr => hlr r (by simp [Message.records, hr])
  exact .mk hwq hwan hwns hwar (hcq.trans h.qdcount.symm) (hcan.trans h.ancount.symm)
    (hcns.trans h.nscount.symm) (hcar.trans h.arcount.symm)

theorem accepted_of_not_refused (h : ¬ Refused packet) :
    headerSize ≤ packet.length ∧ rcode (read16 (packet.drop 2)) = 0 ∧
      ∃ s, parseDNSResponse packet = .ok (some s) := by
  obtain ⟨r, hr, hread⟩ := parseDNSResponse_spec packet
  cases hread with
  | header hheader => exact absurd (or_assoc.mp (Or.inl hheader)) h
  | question _ _ hquestions => exact absurd (Or.inr (Or.inr hquestions)) h
  | sections hsize hrcode _ _ _ _ => exact ⟨hsize, hrcode, _, hr⟩

theorem refused_none (h : Refused packet) : parseDNSResponse packet = .ok none := by
  obtain ⟨r, hr, hread⟩ := parseDNSResponse_spec packet
  cases hread with
  | header _ => exact hr
  | question _ _ _ => exact hr
  | sections hsize hrcode hquestions _ _ _ =>
    rcases h with hshort | herror | hcut
    · exact absurd hshort (not_lt.mpr hsize)
    · exact absurd hrcode herror
    · rw [hquestions] at hcut; cases hcut

/-- **Soundness.** Every packet that the decoder accepts is a message of which it returns every
record, exactly if the packet is refused by the header check or the question loop, or no loop meets
a defect: each uses up its count, each record is read, and each name runs to a zero byte. This holds
for each bound `L` on the labels: the 63 of the standard, or the 191 that the code lets through. -/
theorem response_sound_iff (L : Nat) (packet : Bytes) :
    (∀ s, parseDNSResponse packet = .ok (some s) → IsMessage L packet s) ↔
      Refused packet ∨ Clean L packet := by
  by_cases hrefused : Refused packet
  · refine ⟨fun _ => Or.inl hrefused, fun _ s hs => ?_⟩
    rw [refused_none hrefused] at hs
    cases hs
  · obtain ⟨hsize, hrcode, s, hs⟩ := accepted_of_not_refused hrefused
    constructor
    · intro h
      obtain ⟨m, hm, hl, -⟩ := h s hs
      exact Or.inr (clean_of_message hm hl)
    · rintro (h | hclean) s' hs'
      · exact absurd h hrefused
      · obtain ⟨m, hm, hl⟩ := hclean.message hsize
        obtain ⟨s'', hs'', hlan, hlns, hlar, -⟩ := parseDNSResponse_of_messageAt hm hrcode
        rw [hs'] at hs''
        cases hs''
        exact ⟨m, hm, hl, hlan, hlns, hlar⟩

/-- A response that is nothing but a header, which counts one answer. -/
def missingAnswer : Bytes := [0, 0, 0x80, 0, 0, 0, 0, 1, 0, 0, 0, 0]

theorem response_sound_missingAnswer :
    ¬ ∀ (packet : Bytes) (s : Sections), parseDNSResponse packet = .ok (some s) →
      ∃ L, IsMessage L packet s := by
  intro h
  have haccepted : parseDNSResponse missingAnswer = .ok (some ⟨[], [], []⟩) := by decide +kernel
  obtain ⟨L, m, hm, -, hanswers, -⟩ := h _ _ haccepted
  have hcount : (1 : Nat) = m.answers.length := hm.ancount
  rw [← hcount] at hanswers
  cases hanswers

end Dns
