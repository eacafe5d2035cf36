import ComputerNetworks.Dns.Runs

/-!
# When resolution stops

Nested calls of `iterativeResolve` start with fresh counters, so the twenty iterations bound nothing
but the queries of one call. What bounds a run is the number of responses that ask for a nested one.
-/

open Lib Lib.Bytes Lib.Traced

namespace Dns

/-! ## The depth of the nesting -/

/-- One nested call is cut off where the other nests deeper. -/
def NestedBelow (nested nested' : Nested) : Prop :=
  ∀ domain type, Below Stop.tooDeep (nested domain type) (nested' domain type)

section Nesting

variable {nested nested' : Nested}

theorem followCname_below (hn : NestedBelow nested nested') (type : DNSRecordType)
    (iterations : Nat) (found : Found) :
    Below Stop.tooDeep (followCname nested type iterations found)
      (followCname nested' type iterations found) := by
  unfold followCname
  split
  · exact (hn _ _).bind fun _ => below_pure _ _
  · exact below_pure _ _

theorem resolveServer_below (hn : NestedBelow nested nested') (name : Bytes) :
    Below Stop.tooDeep (resolveServer nested name) (resolveServer nested' name) :=
  (hn _ _).bind fun _ => below_pure _ _

theorem resolveServers_below (hn : NestedBelow nested nested') (iterations : Nat)
    (names : List Bytes) :
    Below Stop.tooDeep (resolveServers nested iterations names)
      (resolveServers nested' iterations names) := by
  cases names with
  | nil => exact below_pure _ _
  | cons first rest =>
    show Below _ (if iterations < maxIterations - 3 then _ else _)
      (if iterations < maxIterations - 3 then _ else _)
    split
    · refine (resolveServer_below hn first).bind fun a => ?_
      cases a with
      | some ips => exact below_pure _ _
      | none =>
        cases rest with
        | nil => exact below_pure _ _
        | cons second _ => exact resolveServer_below hn second
    · exact below_pure _ _

theorem referral_below (hn : NestedBelow nested nested') (iterations : Nat) (s : ResolveState)
    (sections : Sections) :
    Below Stop.tooDeep (referral nested iterations s sections)
      (referral nested' iterations s sections) := by
  have hservers : Below Stop.tooDeep (referredServers nested iterations sections)
      (referredServers nested' iterations sections) := by
    unfold referredServers
    split
    · exact resolveServers_below hn iterations _
    · exact below_pure _ _
  refine hservers.bind fun a => ?_
  cases a with
  | none => exact below_pure _ _
  | some servers => dsimp only; split <;> exact below_pure _ _

theorem onResponse_below (hn : NestedBelow nested nested') (type : DNSRecordType)
    (iterations : Nat) (s : ResolveState) (sections : Sections) :
    Below Stop.tooDeep (onResponse nested type iterations s sections)
      (onResponse nested' type iterations s sections) := by
  unfold onResponse
  dsimp only
  split
  · exact below_pure _ _
  · refine (followCname_below hn type iterations _).bind fun a => ?_
    cases a with
    | some results => exact below_pure _ _
    | none => exact referral_below hn iterations _ sections

theorem ask_grows (net : Network) (server domain : Bytes) (type : DNSRecordType) :
    Grows (ask net server domain type) := by
  intro tr
  exact ((ask_spec net server domain type tr).ran 0).1.grows

theorem iteration_below (hn : NestedBelow nested nested') (net : Network) (domain : Bytes)
    (type : DNSRecordType) (iterations : Nat) (s : ResolveState) :
    Below Stop.tooDeep (iteration net nested domain type iterations s)
      (iteration net nested' domain type iterations s) := by
  unfold iteration
  cases s.servers with
  | nil => exact below_pure _ _
  | cons server others =>
    dsimp only
    split
    · exact below_pure _ _
    split
    · exact below_pure _ _
    refine (Below.refl _ (ask_grows net server domain type)).bind fun a => ?_
    cases a with
    | none => dsimp only; split <;> exact below_pure _ _
    | some response =>
      refine (Below.refl _ (grows_ofExcept _ _)).bind fun parsed => ?_
      cases parsed with
      | none => exact below_pure _ _
      | some sections =>
        exact (Below.refl _ (grows_log _)).bind fun _ => onResponse_below hn type iterations _ _

end Nesting

theorem iterativeResolve_below (net : Network) (n : Nat) :
    ∀ (k : Nat) (domain : Bytes) (type : DNSRecordType) (servers results : List Bytes),
      Below Stop.tooDeep (iterativeResolve net n domain type servers results)
        (iterativeResolve net (n + k) domain type servers results) := by
  induction n with
  | zero =>
    intro k domain type servers results
    refine Below.stop fun tr => ?_
    exact (iterativeResolve_spec net (0 + k) domain type servers results tr).grows
  | succ n ih =>
    intro k domain type servers results
    rw [Nat.succ_add]
    exact Below.upTo (fun left s => iteration_below
      (fun domain type => ih k domain type rootServers []) net domain type _ s) maxIterations _

theorem resolve_below (net : Network) {n m : Nat} (h : n ≤ m) (domain : Bytes)
    (type : DNSRecordType) :
    Below Stop.tooDeep (resolve net n domain type) (resolve net m domain type) := by
  obtain ⟨k, rfl⟩ := Nat.exists_eq_add_of_le h
  unfold resolve
  split
  · exact iterativeResolve_below net n k domain type rootServers []
  · exact below_pure _ _

/-! ## The theorem -/

/-- A start domain and type, and how the network behaves. -/
structure Request where
  net : Network
  domain : Bytes
  type : DNSRecordType

/-- The outcome and the trace of `resolve`, where calls may nest `nest` deep. -/
def Request.run (q : Request) (nest : Nat) : Except Stop (Bool × List Bytes) × List Event :=
  resolve q.net nest q.domain q.type []

/-- `resolve` returns, with calls nested at most `depth` deep and at most `bound` queries. -/
def Request.ReturnsWithin (q : Request) (depth bound : Nat) : Prop :=
  (∃ r, (q.run depth).1 = .ok r) ∧ queries (q.run depth).2 ≤ bound

/-- A run that meets at most `k` follow-up responses, and no name that it cannot ask for, returns:
its calls nest at most `k + 1` deep, with 40 queries to the call and three calls to a response. -/
theorem returns_of_followUps {q : Request} {k : Nat} (hk : followUps (q.run (k + 1)).2 ≤ k)
    (hfits : ∀ name, .asked name ∈ (q.run (k + 1)).2 → Fits name) :
    q.ReturnsWithin (k + 1) (40 + 120 * k) := by
  have hran : Ran (k + 1) 40 q.domain [] (stopped (q.run (k + 1)).1) (q.run (k + 1)).2 :=
    resolve_spec q.net (k + 1) q.domain q.type
  have hspent := hran.spent
  have hzero : queries [] = 0 ∧ followUps [] = 0 := ⟨rfl, rfl⟩
  refine ⟨?_, by omega⟩
  match hr : (q.run (k + 1)).1 with
  | .ok r => exact ⟨r, rfl⟩
  | .error .tooDeep =>
    have := hran.deep (by rw [hr]; rfl)
    omega
  | .error (.thrown what) =>
    obtain ⟨name, hmem, hlong⟩ := hran.thrown what (by rw [hr]; rfl)
    exact absurd (hfits name hmem) hlong
  | .error (.fault f) => exact absurd (by rw [hr]; rfl) (hran.fault f)

/-- **Resolution stops.** A class of requests has one bound on queries and nesting within which
`resolve` returns, exactly if it has one bound on the follow-up responses that a run receives, and
no run asks for a name that it cannot encode. -/
theorem resolve_bounded_iff (X : Request → Prop) :
    (∃ depth bound, ∀ q, X q → q.ReturnsWithin depth bound) ↔
      (∃ k, ∀ q, X q → ∀ nest, followUps (q.run nest).2 ≤ k) ∧
        ∀ q, X q → ∀ nest name, .asked name ∈ (q.run nest).2 → Fits name := by
  constructor
  · rintro ⟨depth, bound, h⟩
    -- The whole run is that of `depth` levels; with fewer levels one sees a part of it.
    have hpart : ∀ q, X q → ∀ nest, (q.run nest).2 <:+ (q.run depth).2 := by
      intro q hq nest
      obtain ⟨⟨r, hr⟩, -⟩ := h q hq
      rcases Nat.le_total nest depth with hle | hle
      · rcases (resolve_below q.net hle q.domain q.type).eq_or_cut [] with heq | ⟨-, hsuffix⟩
        · rw [Request.run, heq]; exact List.suffix_refl _
        · exact hsuffix
      · rcases (resolve_below q.net hle q.domain q.type).eq_or_cut [] with heq | ⟨hcut, -⟩
        · rw [Request.run, ← heq]; exact List.suffix_refl _
        · rw [Request.run, hcut] at hr; cases hr
    have hran : ∀ q, X q → Ran depth 40 q.domain [] none (q.run depth).2 := by
      intro q hq
      obtain ⟨⟨r, hr⟩, -⟩ := h q hq
      have hran := resolve_spec q.net depth q.domain q.type
      unfold Ends at hran
      rw [Request.run] at hr
      rw [hr] at hran
      exact hran
    refine ⟨⟨bound, fun q hq nest => ?_⟩, fun q hq nest name hname => ?_⟩
    · have hle := followUps_le (hpart q hq nest)
      have hanswered := (hran q hq).answered
      have hbound := (h q hq).2
      have hzero : queries [] = 0 ∧ followUps [] = 0 := ⟨rfl, rfl⟩
      omega
    · have hmem := (hpart q hq nest).subset hname
      exact ((hran q hq).fits (by simp) name hmem).resolve_left (by simp)
  · rintro ⟨⟨k, hk⟩, hfits⟩
    exact ⟨k + 1, 40 + 120 * k, fun q hq =>
      returns_of_followUps (hk q hq (k + 1)) (hfits q hq (k + 1))⟩

/-! ## A cycle of one name -/

/-- A network in which every server answers that the canonical name of `a` is `a`. -/
def cnameCycle : Network where
  time _ := 0
  udp _ := some selfCname
  tcp _ := none

theorem parse_selfCname : parseDNSResponse selfCname =
    .ok (some ⟨selfCnameMessage.answers.map Record.toRR, [], []⟩) := by decide +kernel

theorem ask_cnameCycle (server : Bytes) (type : DNSRecordType) (tr : List Event) :
    ∃ tr', ask cnameCycle server [0x61] type tr = (.ok (some selfCname), tr') :=
  have hquery : createDNSQuery 0 [0x61] type = .ok (queryFor 0 [[0x61]] type) := rfl
  have hask := (@ask_accepted cnameCycle server [0x61] selfCname _ type tr rfl hquery rfl
    (by decide)).trans (if_neg (by decide))
  ⟨_, hask⟩

theorem onResponse_cnameCycle {nested : Nested}
    (hn : ∀ tr, (nested [0x61] .A tr).1 = .error .tooDeep) (s : ResolveState) (tr : List Event) :
    (onResponse nested .A 1 s ⟨selfCnameMessage.answers.map Record.toRR, [], []⟩ tr).1 =
      .error .tooDeep := by
  have hscan : scanAnswers .A (selfCnameMessage.answers.map Record.toRR) s.results =
      ⟨s.results, false, [0x61]⟩ := rfl
  rw [onResponse, hscan]
  dsimp only
  rw [if_neg (by decide)]
  refine bind_error ?_ _
  rw [followCname, if_pos ⟨List.cons_ne_nil _ _, by decide⟩]
  exact bind_error (hn tr) _

theorem iteration_cnameCycle {nested : Nested}
    (hn : ∀ tr, (nested [0x61] .A tr).1 = .error .tooDeep) (tr : List Event) :
    (iteration cnameCycle nested [0x61] .A 1
      { servers := rootServers, serverTries := 0, totalFailures := 0, results := [] } tr).1 =
        .error .tooDeep := by
  obtain ⟨server, others, hservers⟩ : ∃ server others, rootServers = server :: others :=
    ⟨_, _, rfl⟩
  obtain ⟨tr', hask⟩ := ask_cnameCycle server .A tr
  rw [iteration, hservers]
  dsimp only
  rw [if_neg (by decide), if_neg (by decide), bind_apply, hask]
  dsimp only
  rw [parse_selfCname, ofExcept_ok, Traced.pure_bind]
  exact onResponse_cnameCycle hn _ _

theorem iterativeResolve_cnameCycle (n : Nat) (tr : List Event) :
    (iterativeResolve cnameCycle n [0x61] .A rootServers [] tr).1 = .error .tooDeep := by
  induction n generalizing tr with
  | zero => rfl
  | succ n ih =>
    exact bind_error (iteration_cnameCycle (fun tr => ih tr) tr) _

/-- A cyclic CNAME is followed without end. -/
theorem resolve_unbounded :
    ¬ ∃ depth bound, ∀ q : Request, q.ReturnsWithin depth bound := by
  rintro ⟨depth, bound, h⟩
  obtain ⟨⟨r, hr⟩, -⟩ := h ⟨cnameCycle, [0x61], .A⟩
  have hloop : (resolve cnameCycle depth [0x61] .A []).1 = .error .tooDeep := by
    rw [resolve, if_pos (by decide)]
    exact iterativeResolve_cnameCycle depth []
  rw [Request.run, hloop] at hr
  cases hr

end Dns
