import ComputerNetworks.Dns.Resolver

/-!
# What a run of the resolver does

One lemma for each function of the resolver. It bounds the queries by the responses that ask for a
nested call, and says where the names come from that are asked for.
-/

open Lib Lib.Bytes Lib.Traced

namespace Dns

/-! ## Traces -/

def Event.isQuery : Event → Bool
  | .udp _ _ => true
  | .tcp _ _ => true
  | _ => false

def queries (tr : List Event) : Nat := tr.countP Event.isQuery

/-- A response that may make the resolver call itself: a CNAME without a final answer, or NS names
without an address. -/
def asksFollowUp (type : DNSRecordType) (sections : Sections) : Bool :=
  let found := scanAnswers type sections.answers []
  !found.finalAnswer && (found.cnameTarget ≠ [] ||
    (addresses sections.additional = [] && nextServers sections.authority ≠ []))

def Event.isFollowUp : Event → Bool
  | .received type response =>
    match parseDNSResponse response with
    | .ok (some sections) => asksFollowUp type sections
    | _ => false
  | _ => false

def followUps (tr : List Event) : Nat := tr.countP Event.isFollowUp

theorem queries_cons (e : Event) (tr : List Event) :
    queries (e :: tr) = queries tr + if e.isQuery then 1 else 0 := List.countP_cons

theorem followUps_cons (e : Event) (tr : List Event) :
    followUps (e :: tr) = followUps tr + if e.isFollowUp then 1 else 0 := List.countP_cons

/-- A response of the trace carries the name as the target of an NS or CNAME record. -/
def Named (tr : List Event) (name : Bytes) : Prop :=
  ∃ type response sections, .received type response ∈ tr ∧
    parseDNSResponse response = .ok (some sections) ∧
    ∃ rr ∈ sections.records, rr.type.hasTarget ∧ rr.nsName = name

def Fits (name : Bytes) : Prop := ∀ l ∈ Text.getlines dot name, l.length ≤ 63

theorem Named.mono {tr tr' : List Event} {name : Bytes} (h : Named tr name) (hle : tr <:+ tr') :
    Named tr' name := by
  obtain ⟨type, response, sections, hmem, hrest⟩ := h
  exact ⟨type, response, sections, hle.subset hmem, hrest⟩

/-! ## Stretches of a run -/

def stopped {α : Type} : Except Stop α → Option Stop
  | .ok _ => none
  | .error e => some e

/-- What holds of a stretch of a run from `tr` to `tr'`, on the way of a call for `domain` with `n`
levels of nesting left. It costs at most `cost` queries and 120 for each follow-up response, which
pays for three nested calls. -/
structure Ran (n cost : Nat) (domain : Bytes) (tr : List Event) (why : Option Stop)
    (tr' : List Event) : Prop where
  grows : tr <:+ tr'
  spent : queries tr' + 120 * followUps tr ≤ queries tr + cost + 120 * followUps tr'
  answered : followUps tr' + queries tr ≤ queries tr' + followUps tr
  deep : why = some .tooDeep → followUps tr + n ≤ followUps tr'
  thrown : ∀ what, why = some (.thrown what) → ∃ name, .asked name ∈ tr' ∧ ¬ Fits name
  fault : ∀ f, why ≠ some (.fault f)
  fits : (∀ what, why ≠ some (.thrown what)) →
    ∀ name, .asked name ∈ tr' → .asked name ∈ tr ∨ Fits name
  named : ∀ name, .asked name ∈ tr' → .asked name ∈ tr ∨ name = domain ∨ Named tr' name

theorem followUps_le {tr tr' : List Event} (h : tr <:+ tr') : followUps tr ≤ followUps tr' :=
  h.sublist.countP_le

theorem Ran.refl (n : Nat) (domain : Bytes) (tr : List Event) : Ran n 0 domain tr none tr where
  grows := List.suffix_refl tr
  spent := le_refl _
  answered := by omega
  deep := by simp
  thrown := by simp
  fault := by simp
  fits := fun _ _ h => Or.inl h
  named := fun _ h => Or.inl h

theorem Ran.trans {n c c' : Nat} {domain : Bytes} {tr tr₁ tr₂ : List Event} {why : Option Stop}
    (h : Ran n c domain tr none tr₁) (h' : Ran n c' domain tr₁ why tr₂) :
    Ran n (c + c') domain tr why tr₂ where
  grows := h.grows.trans h'.grows
  spent := by have := h.spent; have := h'.spent; omega
  answered := by have := h.answered; have := h'.answered; omega
  deep := fun hd => by have := h'.deep hd; have := followUps_le h.grows; omega
  thrown := h'.thrown
  fault := h'.fault
  fits := fun hw name hn => (h'.fits hw name hn).elim (h.fits (by simp) name) Or.inr
  named := fun name hn => by
    rcases h'.named name hn with hn | hn
    · exact (h.named name hn).imp_right (Or.imp_right fun hn => hn.mono h'.grows)
    · exact Or.inr hn

theorem Ran.weaken {n c c' : Nat} {domain : Bytes} {tr tr' : List Event} {why : Option Stop}
    (h : Ran n c domain tr why tr') (hle : c ≤ c') : Ran n c' domain tr why tr' :=
  { h with spent := by have := h.spent; omega }

theorem Ran.nested {n c : Nat} {domain target : Bytes} {tr tr' : List Event} {why : Option Stop}
    (h : Ran n c target tr why tr') (hn : Named tr target) : Ran n c domain tr why tr' :=
  { h with
    named := fun name hmem => by
      rcases h.named name hmem with hmem | rfl | hmem
      · exact Or.inl hmem
      · exact Or.inr (Or.inr (hn.mono h.grows))
      · exact Or.inr (Or.inr hmem) }

/-! ## One query -/

theorem queryUDP_eq (net : Network) (server query : Bytes) (id : UInt16) (tr : List Event) :
    ∃ r, queryUDP net server query id tr = (.ok r, .udp server query :: tr) := by
  simp only [queryUDP, bind_apply, log, look]
  cases net.udp (.udp server query :: tr) with
  | none => exact ⟨_, rfl⟩
  | some datagram => dsimp only; split_ifs <;> exact ⟨_, rfl⟩

theorem queryUDP_accepted {net : Network} {server query datagram : Bytes} {tr : List Event}
    (hudp : net.udp (.udp server query :: tr) = some datagram)
    (hsize : 12 ≤ datagram.length ∧ datagram.length ≤ 512) :
    queryUDP net server query (read16 datagram) tr =
      (.ok (some (datagram, read16 (datagram.drop 2) &&& 0x0200 ≠ 0)), .udp server query :: tr) := by
  have hwhole : datagram.take udpBuffer = datagram := List.take_of_length_le hsize.2
  have hlong : ¬datagram.length < headerSize := not_lt.mpr hsize.1
  rw [queryUDP, log_bind, look_bind, hudp]
  simp only [hwhole, if_neg hlong, if_neg (not_not.mpr (rfl : read16 datagram = read16 datagram))]
  rfl

theorem queryTCP_eq (net : Network) (server query : Bytes) (id : UInt16) (tr : List Event) :
    ∃ r, queryTCP net server query id tr = (.ok r, .tcp server query :: tr) := by
  simp only [queryTCP, bind_apply, log, look]
  cases net.tcp (.tcp server query :: tr) with
  | none => exact ⟨_, rfl⟩
  | some pieces => dsimp only; split_ifs <;> exact ⟨_, rfl⟩

theorem ask_accepted {net : Network} {server domain datagram query : Bytes} {type : DNSRecordType}
    {tr : List Event} (hid : net.queryId (.asked domain :: tr) = read16 datagram)
    (hquery : createDNSQuery (read16 datagram) domain type = .ok query)
    (hudp : net.udp (.udp server query :: .asked domain :: tr) = some datagram)
    (hsize : 12 ≤ datagram.length ∧ datagram.length ≤ 512) :
    ask net server domain type tr =
      if read16 (datagram.drop 2) &&& 0x0200 ≠ 0 then
        queryTCP net server query (read16 datagram) (.udp server query :: .asked domain :: tr)
      else (.ok (some datagram), .udp server query :: .asked domain :: tr) := by
  rw [ask, log_bind, look_bind, hid, hquery, ofExcept_ok, Traced.pure_bind, bind_apply,
    queryUDP_accepted hudp hsize]
  by_cases htruncated : read16 (datagram.drop 2) &&& 0x0200 ≠ 0
  · rw [decide_eq_true htruncated, if_pos htruncated]
  · rw [decide_eq_false htruncated, if_neg htruncated]
    rfl

inductive Asked (domain : Bytes) (tr : List Event) :
    Except Stop (Option Bytes) → List Event → Prop where
  | thrown : ¬ Fits domain →
      Asked domain tr (.error (.thrown "Label too long")) (.asked domain :: tr)
  | udp {server query : Bytes} {r : Option Bytes} : Fits domain →
      Asked domain tr (.ok r) (.udp server query :: .asked domain :: tr)
  | tcp {server query query' : Bytes} {r : Option Bytes} : Fits domain →
      Asked domain tr (.ok r) (.tcp server query' :: .udp server query :: .asked domain :: tr)

theorem ask_spec (net : Network) (server domain : Bytes) (type : DNSRecordType)
    (tr : List Event) : Ends (ask net server domain type) tr (Asked domain tr) := by
  unfold ask
  refine ends_log (ends_look ?_)
  generalize net.queryId (.asked domain :: tr) = id
  rcases createDNSQuery_spec id domain type with ⟨hfits, hquery⟩ | ⟨⟨l, hl, hlong⟩, hquery⟩
  · rw [hquery]
    obtain ⟨r, hr⟩ := queryUDP_eq net server (queryFor id (Text.getlines dot domain) type) id
      (.asked domain :: tr)
    unfold Ends
    rw [ofExcept_ok, Traced.pure_bind, bind_apply, hr]
    match r with
    | none => exact .udp hfits
    | some (response, false) => exact .udp hfits
    | some (_, true) =>
      obtain ⟨r, hr⟩ := queryTCP_eq net server (queryFor id (Text.getlines dot domain) type) id
        (.udp server (queryFor id (Text.getlines dot domain) type) :: .asked domain :: tr)
      dsimp only
      rw [hr]
      exact .tcp hfits
  · rw [hquery]
    exact Asked.thrown fun h => absurd (h l hl) (not_le.mpr hlong)

theorem asked_mem_asked {domain name : Bytes} {tr : List Event}
    (h : .asked name ∈ (.asked domain :: tr : List Event)) :
    .asked name ∈ tr ∨ name = domain := by
  rcases List.mem_cons.mp h with h | h
  · cases h; exact Or.inr rfl
  · exact Or.inl h

theorem asked_mem_other {e : Event} (he : ∀ name, e ≠ .asked name) {name : Bytes} {tr : List Event}
    (h : .asked name ∈ e :: tr) : .asked name ∈ tr :=
  (List.mem_cons.mp h).resolve_left fun heq => he name heq.symm

theorem ran_asked {domain : Bytes} {why : Option Stop} (n : Nat) (tr : List Event)
    (h : why = none ∧ Fits domain ∨ ∃ what, why = some (.thrown what) ∧ ¬ Fits domain) :
    Ran n 0 domain tr why (.asked domain :: tr) where
  grows := List.suffix_cons _ _
  spent := by simp [queries_cons, followUps_cons, Event.isQuery, Event.isFollowUp]
  answered := by simp [queries_cons, followUps_cons, Event.isQuery, Event.isFollowUp, Nat.add_comm]
  deep := by obtain ⟨rfl, -⟩ | ⟨what, rfl, -⟩ := h <;> simp
  thrown := fun what hwhy => by
    obtain ⟨rfl, -⟩ | ⟨-, -, hlong⟩ := h
    · cases hwhy
    · exact ⟨domain, by simp, hlong⟩
  fault := by obtain ⟨rfl, -⟩ | ⟨what, rfl, -⟩ := h <;> simp
  fits := fun hw name hn => by
    obtain ⟨-, hfits⟩ | ⟨what, hwhy, -⟩ := h
    · exact (asked_mem_asked hn).imp_right fun heq => by rw [heq]; exact hfits
    · exact absurd hwhy (hw what)
  named := fun name hn => (asked_mem_asked hn).imp_right Or.inl

theorem ran_event {domain : Bytes} {c : Nat} (n : Nat) (tr : List Event) (e : Event)
    (he : ∀ name, e ≠ .asked name) (hfollow : e.isFollowUp = false)
    (hcost : e.isQuery = true → 0 < c) : Ran n c domain tr none (e :: tr) where
  grows := List.suffix_cons _ _
  spent := by
    simp only [queries_cons, followUps_cons, hfollow]
    split
    · have := hcost ‹_›
      simp
      omega
    · simp
  answered := by simp only [queries_cons, followUps_cons, hfollow]; simp; omega
  deep := by simp
  thrown := by simp
  fault := by simp
  fits := fun _ _ hn => Or.inl (asked_mem_other he hn)
  named := fun _ hn => Or.inl (asked_mem_other he hn)

theorem Asked.ran {domain : Bytes} {tr tr' : List Event} {r : Except Stop (Option Bytes)} (n : Nat)
    (h : Asked domain tr r tr') : Ran n 2 domain tr (stopped r) tr' ∧
      (∀ a, r = .ok a → followUps tr' + queries tr < queries tr' + followUps tr) := by
  cases h with
  | thrown hlong => exact ⟨(ran_asked n tr (.inr ⟨_, rfl, hlong⟩)).weaken (by omega), by simp⟩
  | @udp server query r hfits =>
    have hudp : Ran n 1 domain (.asked domain :: tr) none
        (.udp server query :: .asked domain :: tr) :=
      ran_event n _ _ (by simp) rfl fun _ => Nat.one_pos
    refine ⟨((ran_asked n tr (.inl ⟨rfl, hfits⟩)).trans hudp).weaken (by omega), fun _ _ => ?_⟩
    simp [queries_cons, followUps_cons, Event.isQuery, Event.isFollowUp]
    omega
  | @tcp server query query' r hfits =>
    have hudp : Ran n 1 domain (.asked domain :: tr) none
        (.udp server query :: .asked domain :: tr) :=
      ran_event n _ _ (by simp) rfl fun _ => Nat.one_pos
    have htcp : Ran n 1 domain (.udp server query :: .asked domain :: tr) none
        (.tcp server query' :: .udp server query :: .asked domain :: tr) :=
      ran_event n _ _ (by simp) rfl fun _ => Nat.one_pos
    refine ⟨(ran_asked n tr (.inl ⟨rfl, hfits⟩)).trans (hudp.trans htcp), fun _ _ => ?_⟩
    simp [queries_cons, followUps_cons, Event.isQuery, Event.isFollowUp]
    omega

/-! ## One response -/

theorem foldl_scanAnswer (type : DNSRecordType) (answers : List DNSResourceRecord) :
    ∀ f g : Found, f.finalAnswer = g.finalAnswer → f.cnameTarget = g.cnameTarget →
      (answers.foldl (scanAnswer type) f).finalAnswer =
          (answers.foldl (scanAnswer type) g).finalAnswer ∧
        (answers.foldl (scanAnswer type) f).cnameTarget =
          (answers.foldl (scanAnswer type) g).cnameTarget := by
  induction answers with
  | nil => exact fun f g hf hc => ⟨hf, hc⟩
  | cons rr answers ih =>
    intro f g hf hc
    refine ih _ _ ?_ ?_ <;> unfold scanAnswer <;> split_ifs <;> simp [hf, hc]

theorem scanAnswers_results (type : DNSRecordType) (answers : List DNSResourceRecord)
    (results : List Bytes) :
    (scanAnswers type answers results).finalAnswer = (scanAnswers type answers []).finalAnswer ∧
      (scanAnswers type answers results).cnameTarget = (scanAnswers type answers []).cnameTarget :=
  foldl_scanAnswer type answers _ _ rfl rfl

theorem cnameTarget_mem (type : DNSRecordType) (answers : List DNSResourceRecord) :
    ∀ f : Found, (answers.foldl (scanAnswer type) f).cnameTarget = f.cnameTarget ∨
      ∃ rr ∈ answers, rr.type = .CNAME ∧
        rr.cname = (answers.foldl (scanAnswer type) f).cnameTarget := by
  induction answers with
  | nil => exact fun f => Or.inl rfl
  | cons rr answers ih =>
    intro f
    rw [List.foldl_cons]
    rcases ih (scanAnswer type f rr) with h | ⟨rr', hmem, htype, hcname⟩
    · have hstep : (scanAnswer type f rr).cnameTarget = f.cnameTarget ∨
          rr.type = .CNAME ∧ rr.cname = (scanAnswer type f rr).cnameTarget := by
        unfold scanAnswer
        split_ifs with h₁ h₂ h₃ h₄ h₅ <;> simp_all
      rw [h]
      exact hstep.imp_right fun hs => ⟨rr, by simp, hs⟩
    · exact Or.inr ⟨rr', List.mem_cons_of_mem _ hmem, htype, hcname⟩

/-- The trace has the response with these sections. -/
def Received (tr : List Event) (sections : Sections) : Prop :=
  ∃ type response, .received type response ∈ tr ∧ parseDNSResponse response = .ok (some sections)

theorem Received.cnameTarget {tr : List Event} {sections : Sections} (h : Received tr sections)
    (type : DNSRecordType) (results : List Bytes)
    (hne : (scanAnswers type sections.answers results).cnameTarget ≠ []) :
    Named tr (scanAnswers type sections.answers results).cnameTarget := by
  obtain ⟨qtype, response, hmem, hparse⟩ := h
  rcases cnameTarget_mem type sections.answers
    { results, finalAnswer := false, cnameTarget := [] } with hnil | ⟨rr, hrr, htype, hcname⟩
  · exact absurd hnil hne
  · have hrecord : rr ∈ sections.records := by simp [Sections.records, hrr]
    obtain ⟨o, e, hcall⟩ := exists_call_of_records hparse rr hrecord
    exact ⟨qtype, response, sections, hmem, hparse, rr, hrecord, Or.inr htype,
      ((hcall.target (Or.inr htype)).2 htype).symm.trans hcname⟩

theorem Received.nextServers {tr : List Event} {sections : Sections} (h : Received tr sections) :
    ∀ name ∈ nextServers sections.authority, Named tr name := by
  obtain ⟨qtype, response, hmem, hparse⟩ := h
  intro name hname
  obtain ⟨rr, hrr, rfl⟩ := List.mem_map.mp hname
  obtain ⟨hauth, hns⟩ := List.mem_filter.mp hrr
  simp only [ne_eq, decide_eq_true_eq] at hns
  exact ⟨qtype, response, sections, hmem, hparse, rr, by simp [Sections.records, hauth],
    Or.inl hns.1, rfl⟩

/-! ## The steps that nest -/

/-- What the nested calls of a call keep to. -/
def NestedRan (n : Nat) (nested : Nested) : Prop :=
  ∀ target type tr, Ends (nested target type) tr fun r tr' => Ran n 40 target tr (stopped r) tr'

section Nesting

variable {n : Nat} {nested : Nested} {domain : Bytes} {tr : List Event} {sections : Sections}

theorem followCname_spec (hn : NestedRan n nested) (type : DNSRecordType) (iterations : Nat)
    (found : Found) (hnamed : found.cnameTarget ≠ [] → Named tr found.cnameTarget) :
    Ends (followCname nested type iterations found) tr fun r tr' =>
      Ran n 40 domain tr (stopped r) tr' := by
  unfold followCname
  split
  · rename_i h
    refine (hn _ _ tr).bind (fun a tr' hran => ?_) fun e tr' hran => hran.nested (hnamed h.1)
    exact ends_pure (hran.nested (hnamed h.1))
  · exact ends_pure ((Ran.refl n domain tr).weaken (by omega))

theorem resolveServer_spec (hn : NestedRan n nested) {name : Bytes} (hnamed : Named tr name) :
    Ends (resolveServer nested name) tr fun r tr' => Ran n 40 domain tr (stopped r) tr' := by
  refine (hn name .A tr).bind (fun a tr' hran => ?_) fun e tr' hran => hran.nested hnamed
  exact ends_pure (hran.nested hnamed)

theorem resolveServers_spec (hn : NestedRan n nested) (iterations : Nat) (names : List Bytes)
    (hnamed : ∀ name ∈ names, Named tr name) :
    Ends (resolveServers nested iterations names) tr fun r tr' =>
      Ran n 80 domain tr (stopped r) tr' := by
  have hnone := (Ran.refl n domain tr).weaken (Nat.zero_le 80)
  cases names with
  | nil => exact hnone
  | cons first rest =>
    show Ends (if iterations < maxIterations - 3 then _ else _) tr _
    split
    swap
    · exact ends_pure hnone
    have hfirst : Ends (resolveServer nested first) tr fun r tr' =>
        Ran n 40 domain tr (stopped r) tr' := resolveServer_spec hn (hnamed first (by simp))
    refine hfirst.bind (fun a tr' hran => ?_) fun e tr' hran => hran.weaken (by omega)
    have hran : Ran n 40 domain tr none tr' := hran
    cases a with
    | some ips => exact ends_pure (hran.weaken (by omega))
    | none =>
      cases rest with
      | nil => exact ends_pure (hran.weaken (by omega))
      | cons second rest =>
        have hsecond := (hnamed second (by simp)).mono hran.grows
        exact (resolveServer_spec hn hsecond).mono fun r tr'' hran' => hran.trans hran'

theorem referredServers_spec (hn : NestedRan n nested) (iterations : Nat)
    (hr : Received tr sections) :
    Ends (referredServers nested iterations sections) tr fun r tr' =>
      Ran n 80 domain tr (stopped r) tr' := by
  unfold referredServers
  split
  · exact resolveServers_spec hn iterations _ hr.nextServers
  · exact ends_pure ((Ran.refl n domain tr).weaken (by omega))

theorem referral_spec (hn : NestedRan n nested) (iterations : Nat) (s : ResolveState)
    (hr : Received tr sections) :
    Ends (referral nested iterations s sections) tr fun r tr' =>
      Ran n 80 domain tr (stopped r) tr' := by
  have hservers : Ends (referredServers nested iterations sections) tr fun r tr' =>
      Ran n 80 domain tr (stopped r) tr' := referredServers_spec hn iterations hr
  refine hservers.bind (fun servers tr' hran => ?_) fun e tr' hran => hran
  cases servers with
  | none => exact ends_pure hran
  | some servers => dsimp only; split <;> exact ends_pure hran

theorem onResponse_spec (hn : NestedRan n nested) (type : DNSRecordType) (iterations : Nat)
    (s : ResolveState) (hr : Received tr sections) :
    Ends (onResponse nested type iterations s sections) tr fun r tr' =>
      Ran n 120 domain tr (stopped r) tr' := by
  unfold onResponse
  dsimp only
  split
  · exact ends_pure ((Ran.refl n domain tr).weaken (by omega))
  · have hfollow : Ends (followCname nested type iterations
        (scanAnswers type sections.answers s.results)) tr fun r tr' =>
          Ran n 40 domain tr (stopped r) tr' :=
      followCname_spec hn type iterations _ (hr.cnameTarget type s.results)
    refine hfollow.bind (fun a tr' hran => ?_) fun e tr' hran => hran.weaken (by omega)
    cases a with
    | some results => exact ends_pure (hran.weaken (by omega))
    | none =>
      obtain ⟨qtype, response, hmem, hparse⟩ := hr
      have hr' : Received tr' sections := ⟨qtype, response, hran.grows.subset hmem, hparse⟩
      exact (referral_spec hn iterations _ hr').mono fun r tr'' hran' => hran.trans hran'

theorem onResponse_quiet (type : DNSRecordType) (iterations : Nat) (s : ResolveState)
    (h : asksFollowUp type sections = false) :
    Ends (onResponse nested type iterations s sections) tr fun r tr' =>
      (∃ turn, r = .ok turn) ∧ tr' = tr := by
  obtain ⟨hfinal, hcname⟩ := scanAnswers_results type sections.answers s.results
  unfold onResponse
  dsimp only
  split
  · exact ends_pure ⟨⟨_, rfl⟩, rfl⟩
  · rename_i hnot
    simp only [asksFollowUp, ← hfinal, ← hcname, hnot, Bool.not_false, Bool.true_and,
      Bool.or_eq_false_iff, decide_eq_false_iff_not, not_not, Bool.and_eq_false_iff] at h
    obtain ⟨hnone, hreferral⟩ := h
    have hfollow : followCname nested type iterations
        (scanAnswers type sections.answers s.results) = pure none :=
      if_neg fun hc => hc.1 hnone
    have hservers : referredServers nested iterations sections =
        pure (some (addresses sections.additional)) := by
      refine if_neg ?_
      rintro ⟨ha, hs⟩
      rcases hreferral with hreferral | hreferral
      · exact hreferral ha
      · exact hs (by simpa using hreferral)
    rw [hfollow, Traced.pure_bind]
    dsimp only
    rw [referral, hservers, Traced.pure_bind]
    dsimp only
    split <;> exact ends_pure ⟨⟨_, rfl⟩, rfl⟩

/-! ## Turns and calls -/

theorem Ran.level {m c : Nat} {tr' : List Event} (h : Ran n c domain tr none tr') :
    Ran m c domain tr none tr' :=
  { h with deep := by simp }

/-- The response to a query is logged, and pays for the nested calls that it asks for. -/
theorem Ran.received {tr₁ tr₂ : List Event} {type : DNSRecordType} {response : Bytes}
    {why : Option Stop} (h : Ran n 2 domain tr none tr₁)
    (hpaid : followUps tr₁ + queries tr < queries tr₁ + followUps tr)
    (hfollow : (Event.received type response).isFollowUp = true)
    (h' : Ran n 120 domain (.received type response :: tr₁) why tr₂) :
    Ran (n + 1) 2 domain tr why tr₂ := by
  have hgrows : tr₁ <:+ tr₂ := (List.suffix_cons _ _).trans h'.grows
  have hqueries : queries (.received type response :: tr₁) = queries tr₁ := by
    rw [queries_cons]; rfl
  have hcount : followUps (.received type response :: tr₁) = followUps tr₁ + 1 := by
    rw [followUps_cons, hfollow]; rfl
  have hold : ∀ name, .asked name ∈ (.received type response :: tr₁ : List Event) →
      .asked name ∈ tr₁ := fun name => asked_mem_other (by simp)
  have hspent := h.spent
  have hspent' := h'.spent
  have hanswered' := h'.answered
  refine ⟨h.grows.trans hgrows, by omega, by omega, fun hd => ?_, h'.thrown, h'.fault, ?_, ?_⟩
  · have hdeep := h'.deep hd
    have hle := followUps_le h.grows
    omega
  · intro hw name hn
    exact (h'.fits hw name hn).elim (fun hn => h.fits (by simp) name (hold name hn)) Or.inr
  · intro name hn
    rcases h'.named name hn with hn | hn
    · exact (h.named name (hold name hn)).imp_right (Or.imp_right fun hn => hn.mono hgrows)
    · exact Or.inr hn

theorem iteration_spec (hn : NestedRan n nested) (net : Network) (type : DNSRecordType)
    (iterations : Nat) (s : ResolveState) :
    Ends (iteration net nested domain type iterations s) tr fun r tr' =>
      Ran (n + 1) 2 domain tr (stopped r) tr' := by
  have hnone := (Ran.refl (n + 1) domain tr).weaken (Nat.zero_le 2)
  unfold iteration
  cases s.servers with
  | nil => exact ends_pure hnone
  | cons server others =>
    dsimp only
    split
    · exact ends_pure hnone
    split
    · exact ends_pure hnone
    refine (ask_spec net server domain type tr).bind (fun a tr₁ hasked => ?_)
      fun e tr₁ hasked => (hasked.ran (n + 1)).1
    have hran : Ran n 2 domain tr none tr₁ := (hasked.ran n).1
    cases a with
    | none => dsimp only; split <;> exact ends_pure hran.level
    | some response =>
      have hpaid := (hasked.ran n).2 _ rfl
      obtain ⟨parsed, hparse⟩ := parseDNSResponse_total response
      dsimp only
      rw [hparse, ofExcept_ok, Traced.pure_bind]
      cases parsed with
      | none => exact ends_pure hran.level
      | some sections =>
        refine ends_log ?_
        have hreceived : Received (.received type response :: tr₁) sections :=
          ⟨type, response, by simp, hparse⟩
        have hfollow : (Event.received type response).isFollowUp = asksFollowUp type sections := by
          simp [Event.isFollowUp, hparse]
        cases hasks : asksFollowUp type sections with
        | true =>
          exact (onResponse_spec hn type iterations _ hreceived).mono fun r tr₂ hran' =>
            hran.received hpaid (hfollow.trans hasks) hran'
        | false =>
          refine (onResponse_quiet type iterations _ hasks).mono ?_
          rintro r tr₂ ⟨⟨turn, rfl⟩, rfl⟩
          have hquiet : Ran (n + 1) 0 domain tr₁ none (.received type response :: tr₁) :=
            ran_event _ _ _ (by simp) (hfollow.trans hasks) (by simp [Event.isQuery])
          exact hran.level.trans hquiet

end Nesting

theorem iterativeResolve_spec (net : Network) (n : Nat) :
    ∀ (domain : Bytes) (type : DNSRecordType) (servers results : List Bytes) (tr : List Event),
      Ends (iterativeResolve net n domain type servers results) tr fun r tr' =>
        Ran n 40 domain tr (stopped r) tr' := by
  induction n with
  | zero =>
    intro domain type servers results tr
    have h := (Ran.refl 0 domain tr).weaken (Nat.zero_le 40)
    show Ran 0 40 domain tr (some .tooDeep) tr
    exact { h with
      deep := fun _ => le_refl _
      thrown := by simp
      fault := by simp
      fits := fun _ => h.fits (by simp) }
  | succ n ih =>
    intro domain type servers results tr
    have hn : NestedRan n fun domain type => iterativeResolve net n domain type rootServers [] :=
      fun target type tr => ih target type rootServers [] tr
    -- After the turns that are used up, two queries each.
    refine Ends.upTo (I := fun left _ tr' => left ≤ maxIterations ∧
      Ran (n + 1) (2 * (maxIterations - left)) domain tr none tr') ?_ ?_ maxIterations _ _
      ⟨le_refl _, Ran.refl (n + 1) domain tr⟩
    · rintro left s tr₁ ⟨hle, hran⟩
      refine (iteration_spec hn net type _ s).mono fun r tr₂ hturn => ?_
      have hboth := hran.trans hturn
      have hmax : maxIterations = 20 := rfl
      match r with
      | .ok (.next t) => exact ⟨by omega, hboth.weaken (by omega)⟩
      | .ok (.leave r) => exact hboth.weaken (by omega)
      | .error e => exact hboth.weaken (by omega)
    · rintro s tr₁ ⟨-, hran⟩
      exact hran

theorem resolve_spec (net : Network) (n : Nat) (domain : Bytes) (type : DNSRecordType) :
    Ends (resolve net n domain type) [] fun r tr' => Ran n 40 domain [] (stopped r) tr' := by
  unfold resolve
  split
  · exact iterativeResolve_spec net n domain type rootServers [] []
  · exact ends_pure ((Ran.refl n domain []).weaken (by omega))

end Dns
