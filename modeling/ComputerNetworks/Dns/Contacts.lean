import ComputerNetworks.Dns.Referral
import ComputerNetworks.Dns.Addresses

/-!
# Whom the resolver asks, and what it believes

Every step of a run has its reason in the steps before it: a query goes to an address that is known by
then, and a response is taken for the answer to the query before it.
-/

open Lib Lib.Bytes Lib.Traced

namespace Dns

/-! ## Reasons -/

/-- An A record with this address has come in, as an answer or in an additional section. -/
def Given (before : List Event) (addr : Bytes) : Prop :=
  ∃ qtype response sections, .received qtype response ∈ before ∧
    parseDNSResponse response = .ok (some sections) ∧
    ∃ rr ∈ sections.answers ++ sections.additional, rr.type = .A ∧ rr.data = addr

/-- The text of an address that the resolver may send to. -/
def Contact (before : List Event) (server : Bytes) : Prop :=
  ∃ addr, inetPton4 server = some addr ∧ (server ∈ rootServers ∨ Given before addr)

/-- The query that is due: for the name that is to be asked for, with the time as its id. -/
def Due (net : Network) (qtype : DNSRecordType) (before : List Event) (query : Bytes) : Prop :=
  ∃ name rest, before = .asked name :: rest ∧
    query = queryFor (net.queryId before) (Text.getlines dot name) qtype

/-- There is a header, with the id of the query. -/
structure Answers (query response : Bytes) : Prop where
  header : headerSize ≤ response.length
  id : read16 response = read16 query

/-- The TC flag. -/
def Truncated (response : Bytes) : Prop := read16 (response.drop 2) &&& 0x0200 ≠ 0

/-- The datagram that has come back, as far as the buffer holds it. -/
def FromUdp (net : Network) (before : List Event) (response : Bytes) : Prop :=
  ∃ datagram, net.udp before = some datagram ∧ response = datagram.take udpBuffer

/-- The front of the stream that has come back, behind its length. -/
def FromTcp (net : Network) (before : List Event) (response : Bytes) : Prop :=
  ∃ pieces, net.tcp before = some pieces ∧
    be16 (UInt16.ofNat response.length) ++ response <+: pieces.flatten

/-- `response` has come in answer to the last query, by UDP, or by TCP where the UDP response was cut. -/
def Arrived (net : Network) (qtype : DNSRecordType) (before : List Event) (response : Bytes) : Prop :=
  ∃ server query rest, Due net qtype rest query ∧ Answers query response ∧
    (before = .udp server query :: rest ∧ FromUdp net before response ∧ ¬ Truncated response ∨
      before = .tcp server query :: .udp server query :: rest ∧ FromTcp net before response)

/-- The reason for a step of a run that is to resolve `domain`. -/
def Justified (net : Network) (domain : Bytes) (type : DNSRecordType) : Event → List Event → Prop
  | .asked name, before => name = domain ∨ Named before name
  | .udp server query, before =>
    Contact before server ∧ ∃ qtype, (qtype = type ∨ qtype = .A) ∧ Due net qtype before query
  | .tcp server query, before => ∃ rest response, before = .udp server query :: rest ∧
    FromUdp net before response ∧ Answers query response ∧ Truncated response
  | .received qtype response, before => Arrived net qtype before response

theorem Given.mono {tr tr' : List Event} {addr : Bytes} (h : Given tr addr) (hle : tr <:+ tr') :
    Given tr' addr := by
  obtain ⟨qtype, response, sections, hmem, hrest⟩ := h
  exact ⟨qtype, response, sections, hle.subset hmem, hrest⟩

theorem Contact.mono {tr tr' : List Event} {server : Bytes} (h : Contact tr server)
    (hle : tr <:+ tr') : Contact tr' server := by
  obtain ⟨addr, hpton, hknown⟩ := h
  exact ⟨addr, hpton, hknown.imp_right fun hgiven => hgiven.mono hle⟩

theorem contact_root {server : Bytes} (h : server ∈ rootServers) (tr : List Event) :
    Contact tr server := by
  have hall : ∀ server ∈ rootServers, (inetPton4 server).isSome = true :=
    List.all_eq_true.mp (by decide +kernel)
  obtain ⟨addr, haddr⟩ := Option.isSome_iff_exists.mp (hall server h)
  exact ⟨addr, haddr, .inl h⟩

theorem Received.contact {tr : List Event} {sections : Sections} (h : Received tr sections)
    {rr : DNSResourceRecord} (hrr : rr ∈ sections.answers ++ sections.additional)
    (htype : rr.type = .A) (hne : rr.ipv4Address ≠ []) : Contact tr rr.ipv4Address := by
  obtain ⟨qtype, response, hmem, hparse⟩ := h
  have hrecord : rr ∈ sections.records := by
    simp only [Sections.records, List.mem_append] at hrr ⊢
    tauto
  obtain ⟨o, e, hcall⟩ := exists_call_of_records hparse rr hrecord
  exact ⟨rr.data, hcall.address hne,
    .inr ⟨qtype, response, sections, hmem, hparse, rr, hrr, htype, rfl⟩⟩

theorem Received.mono {tr tr' : List Event} {sections : Sections} (h : Received tr sections)
    (hle : tr <:+ tr') : Received tr' sections := by
  obtain ⟨qtype, response, hmem, hparse⟩ := h
  exact ⟨qtype, response, hle.subset hmem, hparse⟩

theorem Received.addresses {tr : List Event} {sections : Sections} (h : Received tr sections) :
    ∀ server ∈ addresses sections.additional, Contact tr server := by
  intro server hserver
  obtain ⟨rr, hrr, rfl⟩ := List.mem_map.mp hserver
  obtain ⟨hmem, hA⟩ := List.mem_filter.mp hrr
  have hA := of_decide_eq_true hA
  exact h.contact (List.mem_append_right _ hmem) hA.1 hA.2

theorem Brought.contact {tr tr' : List Event} {x : Bytes} (h : Brought .A tr tr' x) :
    Contact tr' x := by
  obtain ⟨front, response, sections, rfl, hmem, hparse, hx⟩ := h
  have hreceived : Received (front ++ tr) sections :=
    ⟨.A, response, List.mem_append_left _ hmem, hparse⟩
  rw [taken, if_neg (by decide)] at hx
  obtain ⟨rr, hrr, rfl⟩ := List.mem_map.mp hx
  obtain ⟨hanswer, hA⟩ := List.mem_filter.mp hrr
  obtain ⟨htype, hne⟩ := of_decide_eq_true hA
  have hdecoded : rr.decoded = rr.ipv4Address := if_pos htype
  rw [hdecoded] at hne ⊢
  exact hreceived.contact (List.mem_append_left _ hanswer) htype hne

/-! ## One query -/

theorem read16_queryFor (id : UInt16) (labels : List Bytes) (type : DNSRecordType) :
    read16 (queryFor id labels type) = id := by
  simp only [queryFor, queryHeader, List.append_assoc, read16_be16]

theorem queryUDP_answers (net : Network) (server query : Bytes) (tr : List Event) :
    Ends (queryUDP net server query (read16 query)) tr fun r tr' => tr' = .udp server query :: tr ∧
      (∀ e, r ≠ .error e) ∧ ∀ response truncated, r = .ok (some (response, truncated)) →
        FromUdp net tr' response ∧ Answers query response ∧ (truncated = true ↔ Truncated response) := by
  unfold queryUDP
  refine ends_log (ends_look ?_)
  cases hudp : net.udp (.udp server query :: tr) with
  | none => exact ends_pure ⟨rfl, nofun, nofun⟩
  | some datagram =>
    dsimp only
    split
    · exact ends_pure ⟨rfl, nofun, nofun⟩
    split
    · exact ends_pure ⟨rfl, nofun, nofun⟩
    · rename_i hheader hid
      refine ends_pure ⟨rfl, nofun, fun response truncated hr => ?_⟩
      obtain ⟨rfl, rfl⟩ := Prod.mk.inj (Option.some.inj (Except.ok.inj hr))
      exact ⟨⟨datagram, hudp, rfl⟩, ⟨not_lt.mp hheader, not_not.mp hid⟩, decide_eq_true_iff⟩

theorem queryTCP_answers (net : Network) (server query : Bytes) (tr : List Event) :
    Ends (queryTCP net server query (read16 query)) tr fun r tr' => tr' = .tcp server query :: tr ∧
      ∀ response, r = .ok (some response) → FromTcp net tr' response ∧ Answers query response := by
  unfold queryTCP
  refine ends_log (ends_look ?_)
  cases htcp : net.tcp (.tcp server query :: tr) with
  | none => exact ends_pure ⟨rfl, nofun⟩
  | some pieces =>
    dsimp only
    simp only [recv_eq]
    have hlength := Pieces.recv_flatten 2 pieces
    generalize Pieces.recv 2 pieces = front at hlength
    obtain ⟨lengthBytes, rest⟩ := front
    have hbody := Pieces.recv_flatten (read16 lengthBytes).toNat rest
    generalize Pieces.recv (read16 lengthBytes).toNat rest = body at hbody
    obtain ⟨response, behind⟩ := body
    dsimp only at hlength hbody ⊢
    split
    · exact ends_pure ⟨rfl, nofun⟩
    split
    · exact ends_pure ⟨rfl, nofun⟩
    split
    · exact ends_pure ⟨rfl, nofun⟩
    split
    · exact ends_pure ⟨rfl, nofun⟩
    · rename_i htwo hfull hheader hid
      refine ends_pure ⟨rfl, fun response' hr => ?_⟩
      obtain rfl := Option.some.inj (Except.ok.inj hr)
      refine ⟨⟨pieces, htcp, behind.flatten, ?_⟩, ⟨not_lt.mp hheader, not_not.mp hid⟩⟩
      rw [not_not.mp hfull, UInt16.ofNat_toNat, List.append_assoc, hbody, ← hlength]
      congr 1
      match lengthBytes, not_not.mp htwo with
      | [a, b], _ => exact be16_ofBe16 a b

/-! ## Stretches of a run -/

section Steps

variable {net : Network} {domain : Bytes} {type : DNSRecordType}

/-- The run has gone on from `tr` to `tr'`, and each of its steps has had its reason. -/
structure Justly (net : Network) (domain : Bytes) (type : DNSRecordType) (tr tr' : List Event) :
    Prop where
  grows : tr <:+ tr'
  each : Each (Justified net domain type) tr'

theorem Justly.trans {tr tr₁ tr₂ : List Event} (h : Justly net domain type tr tr₁)
    (h' : Justly net domain type tr₁ tr₂) : Justly net domain type tr tr₂ :=
  ⟨h.grows.trans h'.grows, h'.each⟩

theorem Justly.refl {tr : List Event} (h : Each (Justified net domain type) tr) :
    Justly net domain type tr tr :=
  ⟨List.suffix_refl tr, h⟩

theorem ask_justly {tr : List Event} {server name : Bytes} {qtype : DNSRecordType}
    (h : Each (Justified net domain type) tr) (hname : name = domain ∨ Named tr name)
    (hserver : Contact tr server) (hqtype : qtype = type ∨ qtype = .A) :
    Ends (ask net server name qtype) tr fun r tr' => Justly net domain type tr tr' ∧
      ∀ response, r = .ok (some response) → Arrived net qtype tr' response := by
  unfold ask
  refine ends_log (ends_look ?_)
  have hasked := h.cons (e := Event.asked name) hname
  have hgrows : tr <:+ .asked name :: tr := List.suffix_cons _ _
  rcases createDNSQuery_spec (net.queryId (.asked name :: tr)) name qtype with
    ⟨-, hquery⟩ | ⟨-, hquery⟩
  swap
  · rw [hquery]
    exact ⟨⟨hgrows, hasked⟩, nofun⟩
  rw [hquery, ofExcept_ok, Traced.pure_bind]
  have hid := read16_queryFor (net.queryId (.asked name :: tr)) (Text.getlines dot name) qtype
  have hdue : Due net qtype (.asked name :: tr) _ := ⟨name, tr, rfl, rfl⟩
  generalize queryFor (net.queryId (.asked name :: tr)) (Text.getlines dot name) qtype = query
    at hid hdue
  rw [← hid]
  refine (queryUDP_answers net server query (.asked name :: tr)).bind (fun a tr₁ hudp => ?_)
    fun e tr₁ hudp => absurd rfl (hudp.2.1 e)
  obtain ⟨rfl, -, hudp⟩ := hudp
  have hsent := hasked.cons (e := Event.udp server query) ⟨hserver.mono hgrows, qtype, hqtype, hdue⟩
  have hudpGrows : tr <:+ .udp server query :: .asked name :: tr := hgrows.trans (List.suffix_cons _ _)
  match a with
  | none => exact ends_pure ⟨⟨hudpGrows, hsent⟩, nofun⟩
  | some (response, false) =>
    obtain ⟨hfrom, hanswers, htruncated⟩ := hudp response false rfl
    refine ends_pure ⟨⟨hudpGrows, hsent⟩, fun response' hr => ?_⟩
    obtain rfl := Option.some.inj (Except.ok.inj hr)
    exact ⟨server, query, _, hdue, hanswers, .inl ⟨rfl, hfrom, fun htc => nomatch htruncated.mpr htc⟩⟩
  | some (response, true) =>
    obtain ⟨hfrom, hanswers, htruncated⟩ := hudp response true rfl
    refine (queryTCP_answers net server query _).mono ?_
    rintro r _ ⟨rfl, htcp⟩
    refine ⟨⟨hudpGrows.trans (List.suffix_cons _ _), hsent.cons
      ⟨_, response, rfl, hfrom, hanswers, htruncated.mp rfl⟩⟩, fun response' hr => ?_⟩
    obtain ⟨hfrom', hanswers'⟩ := htcp response' hr
    exact ⟨server, query, _, hdue, hanswers', .inr ⟨rfl, hfrom'⟩⟩

/-! ## The steps that nest -/

/-- What the calls that a call makes of itself keep to. -/
def NestedJustly (net : Network) (domain : Bytes) (type : DNSRecordType) (nested : Nested) : Prop :=
  ∀ name qtype tr, Each (Justified net domain type) tr → name = domain ∨ Named tr name →
    qtype = type ∨ qtype = .A → Ends (nested name qtype) tr fun r tr' =>
      Justly net domain type tr tr' ∧
        ∀ ips, qtype = .A → r = .ok (true, ips) → ∀ server ∈ ips, Contact tr' server

variable {nested : Nested} {qtype : DNSRecordType} {iterations : Nat} {s : ResolveState}
  {tr : List Event} {sections : Sections}

theorem followCname_justly (hn : NestedJustly net domain type nested)
    (h : Each (Justified net domain type) tr) (hqtype : qtype = type ∨ qtype = .A) (found : Found)
    (hnamed : found.cnameTarget ≠ [] → Named tr found.cnameTarget) :
    Ends (followCname nested qtype iterations found) tr fun _ tr' => Justly net domain type tr tr' := by
  unfold followCname
  split
  · rename_i hcname
    exact (hn _ _ tr h (.inr (hnamed hcname.1)) hqtype).bind (fun _ _ hj => ends_pure hj.1)
      fun _ _ hj => hj.1
  · exact ends_pure (.refl h)

theorem resolveServer_justly (hn : NestedJustly net domain type nested)
    (h : Each (Justified net domain type) tr) {name : Bytes} (hnamed : Named tr name) :
    Ends (resolveServer nested name) tr fun r tr' => Justly net domain type tr tr' ∧
      ∀ ips, r = .ok (some ips) → ∀ server ∈ ips, Contact tr' server := by
  refine (hn name .A tr h (.inr hnamed) (.inr rfl)).bind (fun a tr' hj => ?_)
    fun _ _ hj => ⟨hj.1, nofun⟩
  obtain ⟨ok, ips⟩ := a
  cases ok with
  | false => exact ends_pure ⟨hj.1, nofun⟩
  | true =>
    refine ends_pure ⟨hj.1, fun ips' hr => ?_⟩
    obtain rfl := Option.some.inj (Except.ok.inj hr)
    exact hj.2 ips rfl rfl

theorem resolveServers_justly (hn : NestedJustly net domain type nested)
    (h : Each (Justified net domain type) tr) {names : List Bytes}
    (hnamed : ∀ name ∈ names, Named tr name) :
    Ends (resolveServers nested iterations names) tr fun r tr' => Justly net domain type tr tr' ∧
      ∀ ips, r = .ok (some ips) → ∀ server ∈ ips, Contact tr' server := by
  cases names with
  | nil => exact ends_pure ⟨.refl h, nofun⟩
  | cons first rest =>
    show Ends (if iterations < maxIterations - 3 then _ else _) tr _
    split
    swap
    · exact ends_pure ⟨.refl h, nofun⟩
    refine (resolveServer_justly hn h (hnamed first List.mem_cons_self)).bind (fun a tr' hj => ?_)
      fun _ _ hj => ⟨hj.1, nofun⟩
    cases a with
    | some ips => exact ends_pure hj
    | none =>
      cases rest with
      | nil => exact ends_pure ⟨hj.1, nofun⟩
      | cons second rest =>
        have hsecond := (hnamed second (by simp)).mono hj.1.grows
        exact (resolveServer_justly hn hj.1.each hsecond).mono fun r tr'' hj' =>
          ⟨hj.1.trans hj'.1, hj'.2⟩

theorem referral_justly (hn : NestedJustly net domain type nested)
    (h : Each (Justified net domain type) tr) (hr : Received tr sections) :
    Ends (referral nested iterations s sections) tr fun r tr' => Justly net domain type tr tr' ∧
      ∀ t, r = .ok (.next t) → ∀ server ∈ t.servers, Contact tr' server := by
  have hservers : Ends (referredServers nested iterations sections) tr fun r tr' =>
      Justly net domain type tr tr' ∧
        ∀ ips, r = .ok (some ips) → ∀ server ∈ ips, Contact tr' server := by
    unfold referredServers
    split
    · exact resolveServers_justly hn h hr.nextServers
    · refine ends_pure ⟨.refl h, fun ips hips => ?_⟩
      obtain rfl := Option.some.inj (Except.ok.inj hips)
      exact hr.addresses
  refine hservers.bind (fun a tr' hj => ?_) fun _ _ hj => ⟨hj.1, nofun⟩
  cases a with
  | none => exact ends_pure ⟨hj.1, nofun⟩
  | some servers =>
    dsimp only
    split
    · exact ends_pure ⟨hj.1, nofun⟩
    · refine ends_pure ⟨hj.1, fun t ht => ?_⟩
      cases ht
      exact hj.2 servers rfl

theorem onResponse_justly (hn : NestedJustly net domain type nested)
    (h : Each (Justified net domain type) tr) (hqtype : qtype = type ∨ qtype = .A)
    (hr : Received tr sections) :
    Ends (onResponse nested qtype iterations s sections) tr fun r tr' =>
      Justly net domain type tr tr' ∧
        ∀ t, r = .ok (.next t) → ∀ server ∈ t.servers, Contact tr' server := by
  unfold onResponse
  dsimp only
  split
  · exact ends_pure ⟨.refl h, nofun⟩
  · refine (followCname_justly hn h hqtype _ (hr.cnameTarget qtype s.results)).bind
      (fun a tr' hj => ?_) fun _ _ hj => ⟨hj, nofun⟩
    cases a with
    | some results => exact ends_pure ⟨hj, nofun⟩
    | none =>
      exact (referral_justly hn hj.each (hr.mono hj.grows)).mono fun r tr'' hj' =>
        ⟨hj.trans hj'.1, hj'.2⟩

theorem iteration_justly (hn : NestedJustly net domain type nested)
    (h : Each (Justified net domain type) tr) {name : Bytes} (hname : name = domain ∨ Named tr name)
    (hqtype : qtype = type ∨ qtype = .A) (hservers : ∀ server ∈ s.servers, Contact tr server) :
    Ends (iteration net nested name qtype iterations s) tr fun r tr' =>
      Justly net domain type tr tr' ∧
        ∀ t, r = .ok (.next t) → ∀ server ∈ t.servers, Contact tr' server := by
  unfold iteration
  match hs : s.servers with
  | [] => exact ends_pure ⟨.refl h, nofun⟩
  | server :: others =>
    rw [hs] at hservers
    dsimp only
    split
    · exact ends_pure ⟨.refl h, nofun⟩
    split
    · exact ends_pure ⟨.refl h, nofun⟩
    refine (ask_justly h hname (hservers server List.mem_cons_self) hqtype).bind (fun a tr₁ hj => ?_)
      fun _ _ hj => ⟨hj.1, nofun⟩
    have hothers : ∀ server ∈ others, Contact tr₁ server := fun server hmem =>
      (hservers server (List.mem_cons_of_mem _ hmem)).mono hj.1.grows
    cases a with
    | none =>
      dsimp only
      split
      · exact ends_pure ⟨hj.1, nofun⟩
      · refine ends_pure ⟨hj.1, fun t ht => ?_⟩
        cases ht
        exact hothers
    | some response =>
      obtain ⟨parsed, hparse⟩ := parseDNSResponse_total response
      dsimp only
      rw [hparse, ofExcept_ok, Traced.pure_bind]
      cases parsed with
      | none =>
        refine ends_pure ⟨hj.1, fun t ht => ?_⟩
        cases ht
        exact hothers
      | some sections =>
        refine ends_log ?_
        have heach := hj.1.each.cons (e := Event.received qtype response) (hj.2 response rfl)
        have hreceived : Received (.received qtype response :: tr₁) sections :=
          ⟨qtype, response, List.mem_cons_self, hparse⟩
        exact (onResponse_justly hn heach hqtype hreceived).mono fun r tr₂ hj' =>
          ⟨⟨hj.1.grows.trans ((List.suffix_cons _ _).trans hj'.1.grows), hj'.1.each⟩, hj'.2⟩

end Steps

/-! ## Calls -/

theorem iterativeResolve_justly (net : Network) (domain : Bytes) (type : DNSRecordType) (n : Nat) :
    ∀ (name : Bytes) (qtype : DNSRecordType) (servers results : List Bytes) (tr : List Event),
      Each (Justified net domain type) tr → name = domain ∨ Named tr name →
      qtype = type ∨ qtype = .A → (∀ server ∈ servers, Contact tr server) →
      Ends (iterativeResolve net n name qtype servers results) tr fun _ tr' =>
        Justly net domain type tr tr' := by
  induction n with
  | zero => exact fun name qtype servers results tr h _ _ _ => Justly.refl h
  | succ n ih =>
    intro name qtype servers results tr h hname hqtype hservers
    have hn : NestedJustly net domain type (nestedCall net n) := by
      intro name qtype tr h hname hqtype
      refine ⟨ih name qtype rootServers [] tr h hname hqtype fun _ hroot => contact_root hroot tr, ?_⟩
      rintro ips rfl hips
      have hcontract := (nestedContract net n).contract name .A tr
      unfold Ends at hcontract
      rw [hips] at hcontract
      cases hcontract with
      | found _ hall => exact fun server hmem => (hall server hmem).contact
    rw [iterativeResolve_succ]
    refine Ends.upTo (I := fun _ s tr' => Justly net domain type tr tr' ∧
      ∀ server ∈ s.servers, Contact tr' server) ?_ ?_ maxIterations _ _ ⟨.refl h, hservers⟩
    · rintro left s tr₁ ⟨hj, hs⟩
      have hname₁ : name = domain ∨ Named tr₁ name := hname.imp_right fun hnamed => hnamed.mono hj.grows
      refine (iteration_justly hn hj.each hname₁ hqtype hs).mono fun r tr₂ hj' => ?_
      match r, hj' with
      | .ok (.next t), hj' => exact ⟨hj.trans hj'.1, hj'.2 t rfl⟩
      | .ok (.leave r), hj' => exact hj.trans hj'.1
      | .error e, hj' => exact hj.trans hj'.1
    · rintro s tr₁ ⟨hj, -⟩
      exact hj

/-- **Contacts.** Whatever the servers send, in a run for a name: each name that is asked for is this name
or the target of a record that has come in; each query asks for the requested type or for an address, and goes
to a root server or to the address of an A record that has come in; TCP is used only where a UDP response was
cut; and what is taken for a response has come in answer to the last query, with its id. -/
theorem steps_justified (net : Network) (nest : Nat) (domain : Bytes) (type : DNSRecordType) (e : Event)
    (before : List Event) (h : e :: before <:+ (resolve net nest domain type []).2) :
    Justified net domain type e before := by
  have heach : Ends (resolve net nest domain type) [] fun _ tr' =>
      Each (Justified net domain type) tr' := by
    unfold resolve
    split
    · exact (iterativeResolve_justly net domain type nest domain type rootServers [] [] (each_nil _)
        (.inl rfl) (.inl rfl) fun _ hroot => contact_root hroot []).mono fun _ _ hj => hj.each
    · exact ends_pure (each_nil _)
  exact heach e before h

/-- The first server refers to the server `n`, and nobody else answers. -/
def oneReferral : Network where
  time _ := 0
  udp tr := if tr.length = 2 then some (referralFor 0x6E) else none
  tcp _ := none

theorem steps_justified_oneReferral :
    ∃ before, .udp (inetNtop4 [6, 6, 6, 6]) (queryFor 0 [[0x61]] .A) :: before =
      (resolve oneReferral 1 [0x61] .A []).2 ∧ Given before [6, 6, 6, 6] := by
  have hrun : .udp (inetNtop4 [6, 6, 6, 6]) (queryFor 0 [[0x61]] .A) ::
      (resolve oneReferral 1 [0x61] .A []).2.tail = (resolve oneReferral 1 [0x61] .A []).2 := by
    decide +kernel
  refine ⟨_, hrun, ?_⟩
  obtain ⟨⟨addr, haddr, hknown⟩, -⟩ := steps_justified oneReferral 1 [0x61] .A _ _ ⟨[], hrun⟩
  rw [inetPton4_inetNtop4] at haddr
  obtain rfl := Option.some.inj haddr
  exact hknown.resolve_left (by decide +kernel)

end Dns
