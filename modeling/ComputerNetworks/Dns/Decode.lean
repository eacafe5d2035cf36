import ComputerNetworks.Dns.Records

/-!
# Completeness of the decoder

A packet that is a message is read as that message.
-/

open Lib Lib.Bytes

namespace Dns

variable {packet : Bytes} {off stop : Nat}

/-- What the code makes of a record: its fields, and the texts that go with its type. -/
def Record.toRR (r : Record) : DNSResourceRecord :=
  { name := Text.join dot r.owner.labels
    type := r.type
    class_ := r.class_
    ttl := r.ttl
    dataLength := UInt16.ofNat r.data.length
    data := r.data
    ipv4Address := if r.type = .A ∧ r.data.length = 4 then inetNtop4 r.data else []
    ipv6Address := if r.type = .AAAA ∧ r.data.length = 16 then inetNtop6 r.data else []
    nsName := if r.type.hasTarget then Text.join dot r.target.labels else []
    cname := if r.type = .CNAME then Text.join dot r.target.labels else [] }

def Record.Short (r : Record) : Prop := ∀ path ∈ r.names, path.pointers < maxJumps

theorem Record.Short.owner {r : Record} (h : r.Short) : r.owner.pointers < maxJumps :=
  h _ ((r.mem_names _).mpr (Or.inl rfl))

theorem Record.Short.target {r : Record} (h : r.Short) (ht : r.type.hasTarget) :
    r.target.pointers < maxJumps :=
  h _ ((r.mem_names _).mpr (Or.inr ⟨ht, rfl⟩))

/-! ## One record -/

theorem typed_eq (rr : DNSResourceRecord) (target : Bytes) (h4 : rr.ipv4Address = [])
    (h6 : rr.ipv6Address = []) (hns : rr.nsName = []) (hcname : rr.cname = []) :
    rr.typed target =
      { rr with
        ipv4Address := if rr.type = .A ∧ rr.dataLength = 4 then inetNtop4 rr.data else []
        ipv6Address := if rr.type = .AAAA ∧ rr.dataLength = 16 then inetNtop6 rr.data else []
        nsName := if rr.type.hasTarget then target else []
        cname := if rr.type = .CNAME then target else [] } := by
  obtain ⟨name, type, class_, ttl, dataLength, data, ipv4, ipv6, ns, cname⟩ := rr
  simp only at h4 h6 hns hcname
  subst h4 h6 hns hcname
  have hA6 : DNSRecordType.A ≠ .AAAA := by decide
  have hAt : ¬ DNSRecordType.A.hasTarget := by decide
  have hAc : DNSRecordType.A ≠ .CNAME := by decide
  have h6t : ¬ DNSRecordType.AAAA.hasTarget := by decide
  have h6c : DNSRecordType.AAAA ≠ .CNAME := by decide
  unfold DNSResourceRecord.typed
  by_cases hA : type = .A ∧ dataLength = 4
  · obtain ⟨rfl, rfl⟩ := hA
    simp [hA6, hAt, hAc]
  · by_cases hAAAA : type = .AAAA ∧ dataLength = 16
    · obtain ⟨rfl, rfl⟩ := hAAAA
      simp [hA6.symm, h6t, h6c]
    · by_cases ht : type.hasTarget
      · simp [hA, hAAAA, ht]
      · have hc : type ≠ .CNAME := fun h => ht (Or.inr h)
        simp [hA, hAAAA, ht, hc]

theorem BodyAt.bodyLength {p : Nat} {r : Record} (h : BodyAt packet p r stop) :
    bodyLength packet p = r.data.length := h.dataLength

theorem BodyAt.toRR {p : Nat} {r : Record} {target : Bytes} (h : BodyAt packet p r stop)
    (ht : r.type.hasTarget → target = Text.join dot r.target.labels) :
    (rawRecord packet p (Text.join dot r.owner.labels)).typed target = r.toRR := by
  have hlength : read16 (packet.drop (p + 8)) = UInt16.ofNat r.data.length := by
    rw [← h.dataLength, UInt16.ofNat_toNat]
  have hsmall : r.data.length < 2 ^ 16 := by
    rw [← h.dataLength]
    exact UInt16.toNat_lt _
  have hraw : rawRecord packet p (Text.join dot r.owner.labels) =
      { name := Text.join dot r.owner.labels, type := r.type, class_ := r.class_, ttl := r.ttl
        dataLength := UInt16.ofNat r.data.length, data := r.data, ipv4Address := []
        ipv6Address := [], nsName := [], cname := [] } := by
    rw [rawRecord, h.type, h.class_, h.ttl, hlength, h.bodyLength, h.data]
  have hnum : ∀ n : UInt16, UInt16.ofNat r.data.length = n ↔ r.data.length = n.toNat := by
    intro n
    rw [← UInt16.toNat_inj, UInt16.toNat_ofNat', Nat.mod_eq_of_lt hsmall]
  rw [typed_eq _ _ rfl rfl rfl rfl, hraw, Record.toRR]
  simp only [hnum]
  have hns : (if r.type.hasTarget then target else []) =
      if r.type.hasTarget then Text.join dot r.target.labels else [] := by
    split
    · exact ht ‹_›
    · rfl
  have hcname : (if r.type = .CNAME then target else []) =
      if r.type = .CNAME then Text.join dot r.target.labels else [] := by
    split
    · exact ht (Or.inr ‹_›)
    · rfl
  rw [hns, hcname]
  rfl

theorem parseResourceRecord_of_recordAt {r : Record} (h : RecordAt packet off r stop) :
    ∃ rr, parseResourceRecord packet off = .ok (some rr, stop) ∧ rr.type = r.type ∧
      rr.dataLength.toNat = r.data.length ∧ (r.Short → rr = r.toRR) := by
  obtain @⟨p, howner, hbody⟩ := h
  obtain ⟨name, hname, hfull⟩ := parseDNSName_of_nameAt howner
  have hstop : stop = p + 10 + bodyLength packet p := by rw [hbody.bodyLength, hbody.ends]
  have hfits : p + 10 + bodyLength packet p ≤ packet.length := hstop ▸ hbody.fits
  obtain ⟨target, e, htarget, hwhole⟩ : ∃ target e,
      parseDNSName packet (p + 10) = .ok (target, e) ∧
        (r.Short → r.type.hasTarget → target = Text.join dot r.target.labels) := by
    by_cases ht : r.type.hasTarget
    · obtain ⟨target, htarget, hwhole⟩ := parseDNSName_of_nameAt (hbody.target ht)
      exact ⟨target, stop, htarget, fun hs ht => hwhole (hs.target ht)⟩
    · obtain ⟨target, e, htarget⟩ := parseDNSName_total packet (p + 10)
      exact ⟨target, e, htarget, fun _ h => absurd h ht⟩
  refine ⟨(rawRecord packet p name).typed target, ?_, ?_, ?_, fun hs => ?_⟩
  · rw [hstop]
    exact parseResourceRecord_whole howner.lt hname hfits htarget
  · rw [typed_type, rawRecord, hbody.type]
  · rw [typed_dataLength, rawRecord, hbody.dataLength]
  · rw [hfull hs.owner]
    exact hbody.toRR (hwhole hs)

/-! ## Sections -/

/-- `Calls packet off rr stop`: a call of `parseResourceRecord` at `off` gets through. -/
def Calls (packet : Bytes) (off : Nat) (rr : DNSResourceRecord) (stop : Nat) : Prop :=
  parseResourceRecord packet off = .ok (some rr, stop)

theorem Calls.lt {rr : DNSResourceRecord} (h : Calls packet off rr stop) : off < packet.length := by
  by_contra hle
  rw [Calls, parseResourceRecord, if_pos (not_lt.mp hle)] at h
  cases h

theorem parseSection_of_calls {rrs : List DNSResourceRecord}
    (h : Walk (Calls packet) off rrs stop) :
    parseSection packet rrs.length off = .ok (rrs, stop) := by
  induction h with
  | nil => rfl
  | @cons off _ _ rr rrs hcall _ ih =>
    rw [List.length_cons, parseSection, if_pos hcall.lt]
    rw [Calls] at hcall
    simp only [bind, Except.bind, hcall, ih]
    rfl

theorem skipQuestions_of_walk {qs : List Question} (h : Walk (QuestionAt packet) off qs stop) :
    skipQuestions packet qs.length off = .ok (some stop) := by
  induction h with
  | nil => rfl
  | @cons off _ _ q qs hq _ ih =>
    cases hq with
    | mk hname hfit _ _ =>
      obtain ⟨name, hparse, -⟩ := parseDNSName_of_nameAt hname
      rw [List.length_cons, skipQuestions, if_pos hname.lt]
      simp only [bind, Except.bind, hparse, if_neg (not_lt.mpr hfit), ih]

theorem calls_of_records {rs : List Record} (h : Walk (RecordAt packet) off rs stop) :
    ∃ rrs, Walk (Calls packet) off rrs stop ∧ rrs.length = rs.length ∧
      ((∀ r ∈ rs, r.Short) → rrs = rs.map Record.toRR) := by
  obtain ⟨rrs, hwalk, hall⟩ : ∃ rrs, Walk (Calls packet) off rrs stop ∧
      List.Forall₂ (fun (r : Record) rr => r.Short → rr = r.toRR) rs rrs :=
    h.map fun r _ _ _ hr => by
      obtain ⟨rr, hcall, -, -, hfull⟩ := parseResourceRecord_of_recordAt hr
      exact ⟨rr, hcall, hfull⟩
  refine ⟨rrs, hwalk, hall.length_eq.symm, fun hshort => ?_⟩
  clear hwalk h
  induction hall with
  | nil => rfl
  | cons hr _ ih =>
    rw [List.map_cons, hr (hshort _ (by simp)), ih fun r h => hshort r (List.mem_cons_of_mem _ h)]

/-! ## The lists of an accepted response -/

theorem calls_of_parseSection {count : Nat} {rrs : List DNSResourceRecord}
    (h : parseSection packet count off = .ok (rrs, stop)) :
    ∃ mid, Walk (Calls packet) off rrs mid := by
  induction count generalizing off rrs with
  | zero =>
    cases h
    exact ⟨_, .nil _⟩
  | succ count ih =>
    rw [parseSection] at h
    split at h
    · obtain ⟨⟨r, p⟩, hr, -⟩ := parseResourceRecord_spec packet off
      obtain ⟨rest, stop', hrest⟩ := parseSection_total packet count p
      cases r with
      | none =>
        simp only [bind, Except.bind, hr] at h
        cases h
        exact ⟨_, .nil _⟩
      | some rr =>
        simp only [bind, Except.bind, hr, hrest] at h
        cases h
        obtain ⟨mid, hwalk⟩ := ih hrest
        exact ⟨mid, .cons hr hwalk⟩
    · cases h
      exact ⟨_, .nil _⟩

def Sections.records (s : Sections) : List DNSResourceRecord :=
  s.answers ++ s.authority ++ s.additional

theorem exists_call_of_records {s : Sections} (h : parseDNSResponse packet = .ok (some s)) :
    ∀ rr ∈ s.records, ∃ o e, Calls packet o rr e := by
  obtain ⟨_, hr, hread⟩ := parseDNSResponse_spec packet
  rw [h] at hr
  cases hr
  cases hread with
  | sections _ _ _ h₁ h₂ h₃ =>
    obtain ⟨_, w₁⟩ := calls_of_parseSection h₁
    obtain ⟨_, w₂⟩ := calls_of_parseSection h₂
    obtain ⟨_, w₃⟩ := calls_of_parseSection h₃
    intro rr hrr
    simp only [Sections.records, List.mem_append] at hrr
    rcases hrr with (hrr | hrr) | hrr
    · exact w₁.exists_step hrr
    · exact w₂.exists_step hrr
    · exact w₃.exists_step hrr

theorem Calls.target {rr : DNSResourceRecord} (h : Calls packet off rr stop)
    (ht : rr.type.hasTarget) :
    (∃ e, parseDNSName packet (stop - rr.dataLength.toNat) = .ok (rr.nsName, e)) ∧
      (rr.type = .CNAME → rr.cname = rr.nsName) := by
  obtain ⟨_, hcall, hread⟩ := parseResourceRecord_spec packet off
  rw [Calls] at h
  rw [h] at hcall
  cases hcall
  cases hread with
  | @whole name target p e _ _ _ htarget =>
    have hstart : p + 10 + bodyLength packet p - (rawRecord packet p name).dataLength.toNat =
        p + 10 := Nat.add_sub_cancel _ _
    rw [typed_type] at ht
    rw [typed_eq _ _ rfl rfl rfl rfl]
    simp only [if_pos ht, hstart]
    exact ⟨⟨e, htarget⟩, fun hc => if_pos hc⟩

/-! ## Messages -/

def Message.Short (m : Message) : Prop := ∀ r ∈ m.records, r.Short

theorem parseDNSResponse_of_messageAt {m : Message} (h : MessageAt packet m)
    (hrcode : rcode (read16 (packet.drop 2)) = 0) :
    ∃ s, parseDNSResponse packet = .ok (some s) ∧ s.answers.length = m.answers.length ∧
      s.authority.length = m.authority.length ∧ s.additional.length = m.additional.length ∧
      (m.Short → s = ⟨m.answers.map Record.toRR, m.authority.map Record.toRR,
        m.additional.map Record.toRR⟩) := by
  obtain ⟨hq, han, hns, har⟩ := h.sections
  obtain ⟨answers, hwan, hlan, hran⟩ := calls_of_records han
  obtain ⟨authority, hwns, hlns, hrns⟩ := calls_of_records hns
  obtain ⟨additional, hwar, hlar, hrar⟩ := calls_of_records har
  refine ⟨⟨answers, authority, additional⟩, ?_, hlan, hlns, hlar, fun hs => ?_⟩
  · have hcan := parseSection_of_calls hwan
    have hcns := parseSection_of_calls hwns
    have hcar := parseSection_of_calls hwar
    rw [parseDNSResponse_eq h.header hrcode, h.qdcount, h.ancount, h.nscount, h.arcount,
      ← hlan, ← hlns, ← hlar]
    simp only [bind, Except.bind, headerSize, skipQuestions_of_walk hq, hcan, hcns, hcar]
    rfl
  · rw [hran fun r hr => hs r (by simp [Message.records, hr]),
      hrns fun r hr => hs r (by simp [Message.records, hr]),
      hrar fun r hr => hs r (by simp [Message.records, hr])]

/-- **Completeness.** A packet that is a message with RCODE 0, and with at most nine pointers to a
name, is read as exactly that message. Labels may even be longer than the 63 bytes of the
standard. -/
theorem response_complete (packet : Bytes) (m : Message) (h : MessageAt packet m)
    (hrcode : rcode (read16 (packet.drop 2)) = 0)
    (hnames : ∀ path ∈ m.names, path.pointers ≤ 9) :
    parseDNSResponse packet = .ok (some
      { answers := m.answers.map Record.toRR
        authority := m.authority.map Record.toRR
        additional := m.additional.map Record.toRR }) := by
  obtain ⟨s, hs, -, -, -, hfull⟩ := parseDNSResponse_of_messageAt h hrcode
  rw [hs, hfull]
  intro r hr path hpath
  exact Nat.lt_succ_of_le (((m.forall_names _).mp hnames).2 r hr path hpath)

/-- A response that says of the name `a` that its canonical name is `a`. Both names of the answer
are pointers to the question. -/
def selfCname : Bytes :=
  [0, 0, 0x80, 0, 0, 1, 0, 1, 0, 0, 0, 0, 1, 0x61, 0, 0, 1, 0, 1,
    0xC0, 12, 0, 5, 0, 1, 0, 0, 0, 60, 0, 2, 0xC0, 12]

def selfCnameMessage : Message :=
  { questions := [⟨[.label [0x61]], .A, .IN⟩]
    answers := [⟨[.pointer, .label [0x61]], .CNAME, .IN, 60, [0xC0, 12], [.pointer, .label [0x61]]⟩]
    authority := [], additional := [] }

theorem selfCname_messageAt : MessageAt selfCname selfCnameMessage := by
  have hlabel : PartAt selfCname 12 (.label [0x61]) 14 :=
    @PartAt.label _ _ 1 rfl (by decide) (by decide) (by decide)
  have hname : NameWalk selfCname 12 [.label [0x61]] 14 := .cons hlabel (.nil _)
  have hpointer : ∀ off, selfCname[off]? = some 0xC0 → selfCname[off + 1]? = some 12 →
      NameAt selfCname off [.pointer, .label [0x61]] (off + 2) := by
    intro off h h'
    exact ⟨⟨14, .cons (.pointer h (by decide) h') hname, rfl⟩, rfl⟩
  refine ⟨by decide, rfl, rfl, rfl, rfl, ?_⟩
  refine @SectionsAt.mk _ _ 19 33 33 33 ?_ ?_ (.nil 33) (.nil 33)
  · exact .cons (.mk ⟨⟨14, hname, rfl⟩, rfl⟩ (by decide) rfl rfl) (.nil _)
  · exact .cons (.mk (hpointer 19 rfl rfl) ⟨rfl, by decide, rfl, rfl, rfl, rfl, rfl,
      fun _ => hpointer 31 rfl rfl⟩) (.nil _)

theorem response_complete_selfCname :
    parseDNSResponse selfCname = .ok (some
      { answers := selfCnameMessage.answers.map Record.toRR, authority := [], additional := [] }) :=
  response_complete selfCname selfCnameMessage selfCname_messageAt (by decide) (by decide)

end Dns
