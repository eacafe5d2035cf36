import ComputerNetworks.Dns.Answers

/-!
# What the resolver returns

The vector that `iterativeResolve` appends to: what a call adds to it, and when it adds nothing.
-/

open Lib Lib.Bytes Lib.Traced

namespace Dns

/-! ## The contract -/

/-- Between two traces a response came in that has `x` to say to a question of this type. -/
def Brought (type : DNSRecordType) (tr tr' : List Event) (x : Bytes) : Prop :=
  ∃ front response sections, tr' = front ++ tr ∧ .received type response ∈ front ∧
    parseDNSResponse response = .ok (some sections) ∧ x ∈ taken type sections.answers

theorem Brought.mono {type : DNSRecordType} {tr tr₁ tr₂ tr₃ : List Event} {x : Bytes}
    (h : Brought type tr₁ tr₂ x) (h₁ : tr <:+ tr₁) (h₂ : tr₂ <:+ tr₃) : Brought type tr tr₃ x := by
  obtain ⟨front, response, sections, rfl, hmem, hparse, hx⟩ := h
  obtain ⟨before, rfl⟩ := h₁
  obtain ⟨after, rfl⟩ := h₂
  exact ⟨after ++ front ++ before, response, sections, by simp, by simp [hmem], hparse, hx⟩

/-- How a call ends that starts at `tr` with a vector `results`. -/
inductive Contract (type : DNSRecordType) (results : List Bytes) (tr : List Event) :
    Except Stop (Bool × List Bytes) → List Event → Prop where
  | failed (tr' : List Event) : Contract type results tr (.ok (false, results)) tr'
  | found {new : List Bytes} {tr' : List Event} : new ≠ [] →
      (∀ x ∈ new, Brought type tr tr' x) → Contract type results tr (.ok (true, results ++ new)) tr'
  | stopped (why : Stop) (tr' : List Event) : Contract type results tr (.error why) tr'

/-- The same for a turn, which may also go on with the vector as it was. -/
def TurnContract (type : DNSRecordType) (results : List Bytes) (tr : List Event)
    (r : Except Stop (Turn ResolveState (Bool × List Bytes))) (tr' : List Event) : Prop :=
  match r with
  | .ok (.next t) => t.results = results
  | .ok (.leave out) => Contract type results tr (.ok out) tr'
  | .error _ => True

structure NestedContract (nested : Nested) : Prop where
  grows : ∀ domain type, Grows (nested domain type)
  contract : ∀ domain type tr, Ends (nested domain type) tr (Contract type [] tr)

/-! ## One turn -/

section Nesting

variable {nested : Nested} {type : DNSRecordType} {iterations : Nat} {s : ResolveState}
  {tr tr₁ : List Event} {sections : Sections}

theorem followCname_contract (hn : NestedContract nested) (hle : tr <:+ tr₁) (found : Found) :
    Ends (followCname nested type iterations found) tr₁ fun r tr₂ => ∀ results,
      r = .ok (some results) → Contract type found.results tr (.ok (true, results)) tr₂ := by
  unfold followCname
  split
  swap
  · exact ends_pure (by simp)
  refine (hn.contract _ _ tr₁).bind (fun a tr₂ hcontract => ?_) fun e tr₂ _ => by simp
  refine ends_pure fun results hr => ?_
  cases hcontract with
  | failed => cases hr
  | found hne hall =>
    cases hr
    exact .found hne fun x hx => (hall x hx).mono hle (List.suffix_refl _)

theorem referral_contract :
    Ends (referral nested iterations s sections) tr₁ (TurnContract type s.results tr) := by
  unfold referral
  refine Ends.bind (R := fun _ _ => True) trivial (fun servers tr₂ _ => ?_) fun _ _ _ => trivial
  cases servers with
  | none => exact ends_pure (.failed _)
  | some servers =>
    dsimp only
    split
    · exact ends_pure (.failed _)
    · exact ends_pure rfl

theorem onResponse_contract (hn : NestedContract nested) (hle : tr <:+ tr₁) {response : Bytes}
    (hparse : parseDNSResponse response = .ok (some sections)) :
    Ends (onResponse nested type iterations s sections) (.received type response :: tr₁)
      (TurnContract type s.results tr) := by
  by_cases htaken : taken type sections.answers = []
  · have hgrow : tr <:+ .received type response :: tr₁ := hle.trans (List.suffix_cons _ _)
    obtain ⟨hresults, -⟩ := scanAnswers_taken type sections.answers s.results
    rw [htaken, List.append_nil] at hresults
    exact ends_onResponse htaken (followCname_contract hn hgrow _)
      (fun results tr₂ hfollow => hresults ▸ hfollow results rfl)
      (fun tr₂ _ => referral_contract) fun _ _ _ => trivial
  · unfold Ends
    rw [onResponse_taken htaken]
    obtain ⟨front, rfl⟩ := hle
    exact .found htaken fun x hx =>
      ⟨.received type response :: front, response, sections, rfl, by simp, hparse, hx⟩

theorem iteration_contract (hn : NestedContract nested) (net : Network) (domain : Bytes)
    (type : DNSRecordType) (iterations : Nat) (s : ResolveState) (hle : tr <:+ tr₁) :
    Ends (iteration net nested domain type iterations s) tr₁ (TurnContract type s.results tr) := by
  unfold iteration
  cases s.servers with
  | nil => exact ends_pure (.failed _)
  | cons server others =>
    dsimp only
    split
    · exact ends_pure (.failed _)
    split
    · exact ends_pure (.failed _)
    have hask : Ends (ask net server domain type) tr₁ fun _ tr₂ => tr₁ <:+ tr₂ :=
      ask_grows net server domain type tr₁
    refine hask.bind (fun a tr₂ hgrow => ?_) fun _ _ _ => trivial
    cases a with
    | none =>
      dsimp only
      split
      · exact ends_pure (.failed _)
      · exact ends_pure rfl
    | some response =>
      obtain ⟨parsed, hparse⟩ := parseDNSResponse_total response
      dsimp only
      rw [hparse, ofExcept_ok, Traced.pure_bind]
      cases parsed with
      | none => exact ends_pure rfl
      | some sections => exact ends_log (onResponse_contract hn (hle.trans hgrow) hparse)

end Nesting

/-! ## The loop -/

/-- The calls that a call makes of itself. -/
def nestedCall (net : Network) (nest : Nat) : Nested :=
  fun domain type => iterativeResolve net nest domain type rootServers []

/-- What `iterativeResolve` does from a state on, with so many turns left. -/
def resolveLoop (net : Network) (nest : Nat) (domain : Bytes) (type : DNSRecordType) (left : Nat)
    (s : ResolveState) : Run (Bool × List Bytes) :=
  upTo
    (fun left s => iteration net (nestedCall net nest) domain type (maxIterations - left) s)
    (fun s => (false, s.results)) left s

theorem iterativeResolve_succ (net : Network) (nest : Nat) (domain : Bytes) (type : DNSRecordType)
    (servers results : List Bytes) :
    iterativeResolve net (nest + 1) domain type servers results =
      resolveLoop net nest domain type maxIterations
        { servers, serverTries := 0, totalFailures := 0, results } := rfl

theorem resolveLoop_contract {net : Network} {nest : Nat}
    (hn : NestedContract (nestedCall net nest)) (domain : Bytes) (type : DNSRecordType) (left : Nat)
    (s : ResolveState) (tr : List Event) :
    Ends (resolveLoop net nest domain type left s) tr (Contract type s.results tr) := by
  refine Ends.upTo (I := fun _ t tr₁ => t.results = s.results ∧ tr <:+ tr₁) ?_ ?_ left s tr
    ⟨rfl, List.suffix_refl tr⟩
  · rintro left t tr₁ ⟨hresults, hle⟩
    have hgrow := (iteration_below (fun d ty => Below.refl _ (hn.grows d ty)) net domain type
      (maxIterations - left) t).grows tr₁
    have hturn := iteration_contract hn net domain type (maxIterations - left) t hle
    rw [hresults] at hturn
    unfold Ends at hturn ⊢
    generalize iteration net _ domain type (maxIterations - left) t tr₁ = out at hturn hgrow ⊢
    match out, hturn with
    | (.ok (.next t'), tr₂), hnext => exact ⟨hnext, hle.trans hgrow⟩
    | (.ok (.leave out), tr₂), hleave => exact hleave
    | (.error e, tr₂), _ => exact .stopped e tr₂
  · rintro t tr₁ ⟨hresults, -⟩
    exact hresults ▸ .failed tr₁

theorem resolveLoop_taken {net : Network} {domain : Bytes} {type : DNSRecordType}
    {s : ResolveState} {tr : List Event} {response : Bytes} {sections : Sections} {tr' : List Event}
    (haccepts : Accepts net domain type s tr response sections tr')
    (htaken : taken type sections.answers ≠ []) (nest left : Nat) :
    resolveLoop net nest domain type (left + 1) s tr =
      (.ok (true, s.results ++ taken type sections.answers), .received type response :: tr') := by
  rw [resolveLoop, upTo, bind_apply, haccepts.iteration_eq, onResponse_taken htaken]
  rfl

theorem nestedContract (net : Network) (nest : Nat) : NestedContract (nestedCall net nest) := by
  refine ⟨fun domain type tr => (iterativeResolve_spec net nest domain type _ [] tr).grows, ?_⟩
  induction nest with
  | zero => exact fun domain type tr => .stopped _ _
  | succ nest ih =>
    exact fun domain type tr => resolveLoop_contract
      ⟨fun domain type tr => (iterativeResolve_spec net nest domain type _ [] tr).grows, ih⟩
      domain type maxIterations _ tr

theorem iterativeResolve_contract (net : Network) (nest : Nat) (domain : Bytes)
    (type : DNSRecordType) (servers results : List Bytes) (tr : List Event) :
    Ends (iterativeResolve net nest domain type servers results) tr (Contract type results tr) := by
  cases nest with
  | zero => exact .stopped _ _
  | succ nest =>
    rw [iterativeResolve_succ]
    exact resolveLoop_contract (nestedContract net nest) domain type _ _ tr

/-! ## The theorems -/

/-- Between two traces a response came in with a record of this type and this data in its answer
section. -/
def Answered (type : DNSRecordType) (tr tr' : List Event) (x : Bytes) : Prop :=
  ∃ front response sections rr, tr' = front ++ tr ∧ .received type response ∈ front ∧
    parseDNSResponse response = .ok (some sections) ∧ rr ∈ sections.answers ∧ rr.type = type ∧
    rr.decoded = x

theorem Brought.answered {type : DNSRecordType} {tr tr' : List Event} {x : Bytes}
    (h : Brought type tr tr' x) : Answered type tr tr' x := by
  obtain ⟨front, response, sections, hfront, hmem, hparse, hx⟩ := h
  rw [taken] at hx
  split at hx
  · exact absurd hx List.not_mem_nil
  · obtain ⟨rr, hrr, rfl⟩ := List.mem_map.mp hx
    obtain ⟨hmem', htype⟩ := List.mem_filter.mp hrr
    exact ⟨front, response, sections, rr, hfront, hmem, hparse, hmem', (of_decide_eq_true htype).1,
      rfl⟩

/-- **Results.** A call that returns `false` leaves the vector as it was. One that returns `true` has
put at least one string behind it, and each is the data of an answer that came in during the call.
So `resolve` returns `true` exactly with a list that is not empty. -/
theorem results_contract (net : Network) (nest : Nat) (domain : Bytes) (type : DNSRecordType) :
    (∀ servers results tr found results' tr',
      iterativeResolve net nest domain type servers results tr = (.ok (found, results'), tr') →
      (found = false → results' = results) ∧
        (found = true → ∃ new, new ≠ [] ∧ results' = results ++ new ∧
          ∀ x ∈ new, Answered type tr tr' x)) ∧
      ∀ tr found list tr', resolve net nest domain type tr = (.ok (found, list), tr') →
        (found = true ↔ list ≠ []) := by
  constructor
  · intro servers results tr found results' tr' hrun
    have h := iterativeResolve_contract net nest domain type servers results tr
    rw [Ends, hrun] at h
    cases h with
    | failed => exact ⟨fun _ => rfl, fun h => Bool.noConfusion h⟩
    | found hne hall =>
      exact ⟨fun h => Bool.noConfusion h, fun _ => ⟨_, hne, rfl, fun x hx => (hall x hx).answered⟩⟩
  · intro tr found list tr' hrun
    rw [resolve] at hrun
    split at hrun
    · have h := iterativeResolve_contract net nest domain type rootServers [] tr
      rw [Ends, hrun] at h
      cases h with
      | failed => simp
      | found hne _ => simpa using hne
    · cases hrun
      simp

/-- A response with the address 1.2.3.4 for the name `a`. -/
def addressResponse : Bytes :=
  [0, 0, 0x80, 0, 0, 0, 0, 1, 0, 0, 0, 0, 1, 0x61, 0, 0, 1, 0, 1, 0, 0, 0, 60, 0, 4, 1, 2, 3, 4]

def addressAnswer : DNSResourceRecord :=
  { name := [0x61], type := .A, class_ := .IN, ttl := 60, dataLength := 4, data := [1, 2, 3, 4]
    ipv4Address := inetNtop4 [1, 2, 3, 4], ipv6Address := [], nsName := [], cname := [] }

theorem parse_addressResponse :
    parseDNSResponse addressResponse = .ok (some ⟨[addressAnswer], [], []⟩) := by decide +kernel

/-- A network in which every server gives that response. -/
def oneAddress : Network where
  time _ := 0
  udp _ := some addressResponse
  tcp _ := none

theorem oneAddress_accepts (servers : List Bytes) (tr : List Event) (h : servers ≠ []) :
    ∃ tr', Accepts oneAddress [0x61] .A
      { servers, serverTries := 0, totalFailures := 0, results := [] } tr addressResponse
      ⟨[addressAnswer], [], []⟩ tr' := by
  obtain ⟨server, others, rfl⟩ := List.exists_cons_of_ne_nil h
  have hquery : createDNSQuery 0 [0x61] .A = .ok (queryFor 0 [[0x61]] .A) := rfl
  have hask := (@ask_accepted oneAddress server [0x61] addressResponse _ .A tr rfl hquery rfl
    (by decide)).trans (if_neg (by decide))
  exact ⟨_, ⟨Nat.zero_lt_two, Nat.zero_lt_succ 4, ⟨server, others, rfl, hask⟩, parse_addressResponse⟩⟩

theorem results_contract_oneAddress :
    ∃ new, new ≠ [] ∧ [inetNtop4 [1, 2, 3, 4]] = [] ++ new ∧ ∀ x ∈ new, Answered .A []
      (iterativeResolve oneAddress 1 [0x61] .A rootServers [] []).2 x := by
  obtain ⟨tr', haccepts⟩ := oneAddress_accepts rootServers [] (by decide)
  have hrun : (iterativeResolve oneAddress 1 [0x61] .A rootServers [] []).1 =
      .ok (true, [inetNtop4 [1, 2, 3, 4]]) := by
    rw [iterativeResolve_succ]
    exact congrArg Prod.fst (resolveLoop_taken haccepts (by decide) 0 19)
  exact ((results_contract oneAddress 1 [0x61] .A).1 rootServers [] [] true _ _
    (Prod.ext hrun rfl)).2 rfl

theorem cname_never_found (net : Network) (nest : Nat) (domain : Bytes) (left : Nat)
    (s : ResolveState) (tr : List Event) (results : List Bytes) :
    (resolveLoop net nest domain .CNAME left s tr).1 ≠ .ok (true, results) := by
  have h := resolveLoop_contract (nestedContract net nest) domain .CNAME left s tr
  unfold Ends at h
  intro hrun
  rw [hrun] at h
  cases h with
  | found hne hall =>
    obtain ⟨x, hx⟩ := List.exists_mem_of_ne_nil _ hne
    obtain ⟨_, _, _, _, _, _, htaken⟩ := hall x hx
    rw [taken, if_pos rfl] at htaken
    exact absurd htaken List.not_mem_nil

/-- **Answers.** In the turn that gets a response with answers of the requested type, the call
returns with the data of exactly these, unless it was asked for a CNAME. -/
theorem answers_delivered_iff (net : Network) (nest : Nat) (domain : Bytes) (type : DNSRecordType)
    (left : Nat) (s : ResolveState) (tr : List Event) (response : Bytes) (sections : Sections)
    (tr' : List Event) (haccepts : Accepts net domain type s tr response sections tr')
    (hdata : delivered type sections.answers ≠ []) :
    resolveLoop net nest domain type (left + 1) s tr =
        (.ok (true, s.results ++ delivered type sections.answers), .received type response :: tr') ↔
      type ≠ .CNAME := by
  constructor
  · rintro hrun rfl
    exact cname_never_found net nest domain (left + 1) s tr _ (congrArg Prod.fst hrun)
  · intro htype
    have htaken : taken type sections.answers = delivered type sections.answers := if_neg htype
    rw [← htaken] at hdata ⊢
    exact resolveLoop_taken haccepts hdata nest left

theorem answers_delivered_oneAddress : ∃ tr',
    resolveLoop oneAddress 0 [0x61] .A 20
        { servers := rootServers, serverTries := 0, totalFailures := 0, results := [] } [] =
      (.ok (true, [inetNtop4 [1, 2, 3, 4]]), .received .A addressResponse :: tr') := by
  obtain ⟨tr', haccepts⟩ := oneAddress_accepts rootServers [] (by decide)
  exact ⟨tr', (answers_delivered_iff oneAddress 0 [0x61] .A 19 _ [] addressResponse _ tr' haccepts
    (by decide)).mpr (by decide)⟩

/-- The canonical name of `a`, asked for as such, is in the response and is not returned. -/
theorem cname_not_delivered :
    ¬ ∀ (net : Network) (nest : Nat) (domain : Bytes) (type : DNSRecordType) (left : Nat)
      (s : ResolveState) (tr : List Event) (response : Bytes) (sections : Sections)
      (tr' : List Event), type ∈ [DNSRecordType.A, .AAAA, .NS, .CNAME] →
      Accepts net domain type s tr response sections tr' →
      delivered type sections.answers ≠ [] →
      resolveLoop net nest domain type (left + 1) s tr =
        (.ok (true, s.results ++ delivered type sections.answers),
          .received type response :: tr') := by
  intro h
  obtain ⟨root, others, hroots⟩ := List.exists_cons_of_ne_nil (show rootServers ≠ [] by decide)
  obtain ⟨tr', hask⟩ := ask_cnameCycle root .CNAME []
  have haccepts : Accepts cnameCycle [0x61] .CNAME
      { servers := rootServers, serverTries := 0, totalFailures := 0, results := [] } [] selfCname
      ⟨selfCnameMessage.answers.map Record.toRR, [], []⟩ tr' :=
    ⟨by decide, by decide, ⟨root, others, hroots, hask⟩, parse_selfCname⟩
  have hrun := h cnameCycle 1 [0x61] .CNAME 19 _ [] selfCname _ tr' (by simp) haccepts (by decide)
  exact cname_never_found cnameCycle 1 [0x61] 20 _ [] _ (congrArg Prod.fst hrun)

end Dns
