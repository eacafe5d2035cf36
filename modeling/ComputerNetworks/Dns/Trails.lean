import ComputerNetworks.Dns.Referral

/-!
# Trails of referrals

Servers that do the same with a question each time they are asked it. What `resolve` comes to at the end
of a trail of them.
-/

open Lib Lib.Bytes Lib.Traced

namespace Dns

/-! ## Servers -/

section Servers

variable (net : Network) (server domain : Bytes) (type : DNSRecordType)

def Silent : Prop := ∀ tr, ∃ tr', ask net server domain type tr = (.ok none, tr')

/-- The server has a response, and the decoder refuses it. -/
def Garbled : Prop := ∀ tr, ∃ response tr', ask net server domain type tr = (.ok (some response), tr') ∧
  parseDNSResponse response = .ok none

def Says (sections : Sections) : Prop :=
  ∀ tr, ∃ response tr', ask net server domain type tr = (.ok (some response), tr') ∧
    parseDNSResponse response = .ok (some sections)

end Servers

def aliasOf (type : DNSRecordType) (sections : Sections) : Bytes :=
  (scanAnswers type sections.answers []).cnameTarget

/-! ## Trails -/

/-- From the `k`th turn on, with some servers to ask and with those before them that were silent, `n` turns
lead to what is found. Calls nest `d` deep on the way. -/
inductive Trail (net : Network) :
    Nat → Bytes → DNSRecordType → Nat → List Bytes → Nat → Nat → List Bytes → Prop where
  | answered {d : Nat} {domain : Bytes} {type : DNSRecordType} {k : Nat} {server : Bytes}
      {others : List Bytes} {tries : Nat} {sections : Sections} :
    tries < maxServerTries → Says net server domain type sections → taken type sections.answers ≠ [] →
      Trail net d domain type k (server :: others) tries 1 (taken type sections.answers)
  | silent {d : Nat} {domain : Bytes} {type : DNSRecordType} {k : Nat} {server : Bytes}
      {others : List Bytes} {tries n : Nat} {found : List Bytes} :
    tries < maxServerTries → Silent net server domain type →
    Trail net d domain type (k + 1) others (tries + 1) n found →
      Trail net d domain type k (server :: others) tries (n + 1) found
  | garbled {d : Nat} {domain : Bytes} {type : DNSRecordType} {k : Nat} {server : Bytes}
      {others : List Bytes} {tries n : Nat} {found : List Bytes} :
    tries < maxServerTries → Garbled net server domain type →
    Trail net d domain type (k + 1) others 0 n found →
      Trail net d domain type k (server :: others) tries (n + 1) found
  /-- The response has the addresses of the next servers. -/
  | glued {d : Nat} {domain : Bytes} {type : DNSRecordType} {k : Nat} {server : Bytes}
      {others : List Bytes} {tries n : Nat} {found : List Bytes} {sections : Sections} :
    tries < maxServerTries → Says net server domain type sections → taken type sections.answers = [] →
    aliasOf type sections = [] → addresses sections.additional ≠ [] →
    Trail net d domain type (k + 1) (addresses sections.additional) 0 n found →
      Trail net d domain type k (server :: others) tries (n + 1) found
  /-- It has their names, and a trail leads to the addresses of the first one. -/
  | named {d : Nat} {domain : Bytes} {type : DNSRecordType} {k : Nat} {server : Bytes}
      {others : List Bytes} {tries m n : Nat} {name : Bytes} {names ips found : List Bytes}
      {sections : Sections} :
    tries < maxServerTries → Says net server domain type sections → taken type sections.answers = [] →
    aliasOf type sections = [] → addresses sections.additional = [] →
    nextServers sections.authority = name :: names → k + 1 < maxIterations - 3 →
    Trail net d name .A 0 rootServers 0 m ips → m ≤ maxIterations →
    Trail net (d + 1) domain type (k + 1) ips 0 n found →
      Trail net (d + 1) domain type k (server :: others) tries (n + 1) found
  /-- A trail leads from the canonical name on. -/
  | aliased {d : Nat} {domain : Bytes} {type : DNSRecordType} {k : Nat} {server : Bytes}
      {others : List Bytes} {tries m : Nat} {found : List Bytes} {sections : Sections} :
    tries < maxServerTries → Says net server domain type sections → taken type sections.answers = [] →
    aliasOf type sections ≠ [] → k + 1 < maxIterations - 5 →
    Trail net d (aliasOf type sections) type 0 rootServers 0 m found → m ≤ maxIterations →
      Trail net (d + 1) domain type k (server :: others) tries 1 found

variable {net : Network} {domain : Bytes} {type : DNSRecordType}

theorem Trail.servers_ne_nil {d k tries n : Nat} {servers found : List Bytes}
    (h : Trail net d domain type k servers tries n found) : servers ≠ [] := by
  cases h <;> exact List.cons_ne_nil _ _

/-! ## One turn -/

section Turn

variable {nested : Nested} {iterations : Nat} {s : ResolveState} {server : Bytes} {others : List Bytes}
  {tr : List Event}

theorem iteration_silent (hservers : s.servers = server :: others) (htries : s.serverTries < maxServerTries)
    (hfailures : s.totalFailures < maxTotalFailures) (hothers : others ≠ [])
    (hsilent : Silent net server domain type) : ∃ tr',
    iteration net nested domain type iterations s tr =
      (.ok (.next { s with
        servers := others, serverTries := s.serverTries + 1, totalFailures := s.totalFailures + 1 }),
        tr') := by
  obtain ⟨tr', hask⟩ := hsilent tr
  refine ⟨tr', ?_⟩
  rw [iteration, hservers]
  dsimp only
  rw [if_neg (not_le.mpr htries), if_neg (not_le.mpr hfailures), bind_apply, hask]
  dsimp only
  rw [if_neg hothers]
  rfl

theorem iteration_garbled (hservers : s.servers = server :: others)
    (htries : s.serverTries < maxServerTries) (hfailures : s.totalFailures < maxTotalFailures)
    (hgarbled : Garbled net server domain type) : ∃ tr',
    iteration net nested domain type iterations s tr =
      (.ok (.next { s with servers := others, serverTries := 0, totalFailures := 0 }), tr') := by
  obtain ⟨response, tr', hask, hparse⟩ := hgarbled tr
  refine ⟨tr', ?_⟩
  rw [iteration, hservers]
  dsimp only
  rw [if_neg (not_le.mpr htries), if_neg (not_le.mpr hfailures), bind_apply, hask]
  dsimp only
  rw [hparse, ofExcept_ok, Traced.pure_bind]
  rfl

variable {sections : Sections}

theorem scanAnswers_alias (htaken : taken type sections.answers = []) (results : List Bytes) :
    (scanAnswers type sections.answers results).results = results ∧
      (scanAnswers type sections.answers results).finalAnswer = false ∧
      (scanAnswers type sections.answers results).cnameTarget = aliasOf type sections := by
  obtain ⟨hresults, hfinal⟩ := scanAnswers_taken type sections.answers results
  rw [htaken, List.append_nil] at hresults
  refine ⟨hresults, Bool.eq_false_iff.mpr fun h => hfinal.mp h htaken, ?_⟩
  exact (scanAnswers_results type sections.answers results).2

theorem onResponse_referral (htaken : taken type sections.answers = [])
    (halias : aliasOf type sections = []) :
    onResponse nested type iterations s sections tr = referral nested iterations s sections tr := by
  obtain ⟨hresults, hfinal, htarget⟩ := scanAnswers_alias htaken s.results
  rw [onResponse, hfinal, hresults, followCname, htarget, if_neg Bool.false_ne_true,
    if_neg fun h => h.1 halias, Traced.pure_bind]

theorem onResponse_glued (htaken : taken type sections.answers = []) (halias : aliasOf type sections = [])
    (haddresses : addresses sections.additional ≠ []) :
    onResponse nested type iterations s sections tr =
      (.ok (.next { s with servers := addresses sections.additional, serverTries := 0 }), tr) := by
  rw [onResponse_referral htaken halias, referral, referredServers, if_neg fun h => haddresses h.1,
    Traced.pure_bind]
  dsimp only
  rw [if_neg haddresses]
  rfl

theorem onResponse_named {name : Bytes} {names ips : List Bytes} {tr' : List Event}
    (htaken : taken type sections.answers = []) (halias : aliasOf type sections = [])
    (haddresses : addresses sections.additional = [])
    (hnames : nextServers sections.authority = name :: names) (hearly : iterations < maxIterations - 3)
    (hcall : nested name .A tr = (.ok (true, ips), tr')) (hips : ips ≠ []) :
    onResponse nested type iterations s sections tr =
      (.ok (.next { s with servers := ips, serverTries := 0 }), tr') := by
  have hserver : resolveServer nested name tr = (.ok (some ips), tr') := by
    rw [resolveServer, bind_apply, hcall]
    rfl
  have hfirst : resolveServers nested iterations (name :: names) tr = (.ok (some ips), tr') := by
    change (if iterations < maxIterations - 3 then _ else _ : Run (Option (List Bytes))) tr = _
    rw [if_pos hearly, bind_apply, hserver]
    rfl
  have hservers : referredServers nested iterations sections tr = (.ok (some ips), tr') := by
    rw [referredServers, if_pos ⟨haddresses, by rw [hnames]; exact List.cons_ne_nil _ _⟩, hnames, hfirst]
  rw [onResponse_referral htaken halias, referral, bind_apply, hservers]
  dsimp only
  rw [if_neg hips]
  rfl

theorem onResponse_aliased {found : List Bytes} {tr' : List Event}
    (htaken : taken type sections.answers = []) (halias : aliasOf type sections ≠ [])
    (hearly : iterations < maxIterations - 5)
    (hcall : nested (aliasOf type sections) type tr = (.ok (true, found), tr')) :
    onResponse nested type iterations s sections tr = (.ok (.leave (true, s.results ++ found)), tr') := by
  obtain ⟨hresults, hfinal, htarget⟩ := scanAnswers_alias htaken s.results
  rw [onResponse, hfinal, if_neg Bool.false_ne_true, followCname, htarget, hresults,
    if_pos ⟨halias, hearly⟩, bind_apply, bind_apply, hcall]
  rfl

end Turn

/-! ## The end of a trail -/

/-- What the loop comes to with `n` turns to the end of a trail. -/
def Comes (net : Network) (nest : Nat) (domain : Bytes) (type : DNSRecordType) (left : Nat)
    (s : ResolveState) (tr : List Event) (n : Nat) (found : List Bytes) : Prop :=
  ∃ tr', resolveLoop net nest domain type left s tr =
    (.ok (if n ≤ left then (true, s.results ++ found) else (false, s.results)), tr')

theorem Comes.turn {nest left n : Nat} {s t : ResolveState} {tr tr' : List Event} {found : List Bytes}
    (hturn : iteration net (nestedCall net nest) domain type (maxIterations - left) s tr =
      (.ok (.next t), tr')) (hresults : t.results = s.results)
    (h : Comes net nest domain type left t tr' n found) :
    Comes net nest domain type (left + 1) s tr (n + 1) found := by
  obtain ⟨tr'', hloop⟩ := h
  refine ⟨tr'', ?_⟩
  rw [hresults] at hloop
  rw [resolveLoop, upTo, bind_apply, hturn]
  simp only [Nat.add_le_add_iff_right]
  exact hloop

theorem Comes.leave {nest left : Nat} {s : ResolveState} {tr tr' : List Event} {found : List Bytes}
    (hturn : iteration net (nestedCall net nest) domain type (maxIterations - left) s tr =
      (.ok (.leave (true, s.results ++ found)), tr')) :
    Comes net nest domain type (left + 1) s tr 1 found := by
  refine ⟨tr', ?_⟩
  rw [resolveLoop, upTo, bind_apply, hturn, if_pos (by omega)]
  rfl

theorem Says.accepts {server : Bytes} {others : List Bytes} {s : ResolveState} {sections : Sections}
    (h : Says net server domain type sections) (hservers : s.servers = server :: others)
    (htries : s.serverTries < maxServerTries) (hfailures : s.totalFailures = s.serverTries)
    (tr : List Event) : ∃ response tr', Accepts net domain type s tr response sections tr' := by
  obtain ⟨response, tr', hask, hparse⟩ := h tr
  refine ⟨response, tr', htries, ?_, ⟨server, others, hservers, hask⟩, hparse⟩
  rw [hfailures]
  exact htries.trans (by decide)

theorem Trail.ends {d k tries n : Nat} {servers found : List Bytes}
    (h : Trail net d domain type k servers tries n found) :
    ∀ {nest left : Nat} {s : ResolveState} (tr : List Event), d ≤ nest → left + k = maxIterations →
      s.servers = servers → s.serverTries = tries → s.totalFailures = s.serverTries →
        Comes net nest domain type left s tr n found := by
  induction h with
  | answered htries hsays htaken =>
    intro nest left s tr _ _ hservers hs hfailures
    cases left with
    | zero => exact ⟨tr, rfl⟩
    | succ left =>
      obtain ⟨response, tr', haccepts⟩ := hsays.accepts hservers (hs ▸ htries) hfailures tr
      have hturn := haccepts.iteration_eq (nestedCall net nest) (maxIterations - left)
      rw [onResponse_taken htaken] at hturn
      exact .leave hturn
  | silent htries hsilent hrest ih =>
    intro nest left s tr hnest hleft hservers hs hfailures
    cases left with
    | zero => exact ⟨tr, rfl⟩
    | succ left =>
      have htries : s.serverTries < maxServerTries := hs ▸ htries
      obtain ⟨tr', hturn⟩ := @iteration_silent _ _ _ (nestedCall net nest) (maxIterations - left) _ _ _ tr
        hservers htries (hfailures ▸ htries.trans (by decide)) hrest.servers_ne_nil hsilent
      exact .turn hturn rfl (ih tr' hnest (by omega) rfl (by rw [hs]) (by rw [hfailures]))
  | garbled htries hgarbled _ ih =>
    intro nest left s tr hnest hleft hservers hs hfailures
    cases left with
    | zero => exact ⟨tr, rfl⟩
    | succ left =>
      have htries : s.serverTries < maxServerTries := hs ▸ htries
      obtain ⟨tr', hturn⟩ := @iteration_garbled _ _ _ (nestedCall net nest) (maxIterations - left) _ _ _ tr
        hservers htries (hfailures ▸ htries.trans (by decide)) hgarbled
      exact .turn hturn rfl (ih _ hnest (by omega) rfl rfl rfl)
  | glued htries hsays htaken halias haddresses _ ih =>
    intro nest left s tr hnest hleft hservers hs hfailures
    cases left with
    | zero => exact ⟨tr, rfl⟩
    | succ left =>
      obtain ⟨response, tr', haccepts⟩ := hsays.accepts hservers (hs ▸ htries) hfailures tr
      have hturn := haccepts.iteration_eq (nestedCall net nest) (maxIterations - left)
      rw [onResponse_glued htaken halias haddresses] at hturn
      exact .turn hturn rfl (ih _ hnest (by omega) rfl rfl rfl)
  | named htries hsays htaken halias haddresses hnames hearly _ hm hrest ihname ih =>
    intro nest left s tr hnest hleft hservers hs hfailures
    cases left with
    | zero => exact ⟨tr, rfl⟩
    | succ left =>
      obtain ⟨nest, rfl⟩ : ∃ below, nest = below + 1 := ⟨nest - 1, by omega⟩
      obtain ⟨response, tr', haccepts⟩ := hsays.accepts hservers (hs ▸ htries) hfailures tr
      -- The call for the name starts anew.
      obtain ⟨tr₁, hcall⟩ := @ihname nest maxIterations
        { servers := rootServers, serverTries := 0, totalFailures := 0, results := [] }
        (.received _ response :: tr') (by omega) rfl rfl rfl rfl
      rw [if_pos hm] at hcall
      have hturn := haccepts.iteration_eq (nestedCall net (nest + 1)) (maxIterations - left)
      rw [onResponse_named htaken halias haddresses hnames (by omega) hcall hrest.servers_ne_nil] at hturn
      exact .turn hturn rfl (ih _ hnest (by omega) rfl rfl rfl)
  | aliased htries hsays htaken halias hearly _ hm ih =>
    intro nest left s tr hnest hleft hservers hs hfailures
    cases left with
    | zero => exact ⟨tr, rfl⟩
    | succ left =>
      obtain ⟨nest, rfl⟩ : ∃ below, nest = below + 1 := ⟨nest - 1, by omega⟩
      obtain ⟨response, tr', haccepts⟩ := hsays.accepts hservers (hs ▸ htries) hfailures tr
      obtain ⟨tr₁, hcall⟩ := @ih nest maxIterations
        { servers := rootServers, serverTries := 0, totalFailures := 0, results := [] }
        (.received _ response :: tr') (by omega) rfl rfl rfl rfl
      rw [if_pos hm] at hcall
      have hturn := haccepts.iteration_eq (nestedCall net (nest + 1)) (maxIterations - left)
      rw [onResponse_aliased htaken halias (by omega) hcall] at hturn
      exact .leave hturn

/-- **Finding.** A trail of `n` turns leads `resolve` to what is found at its end, if `n` is no more than the
limit of the loop, and otherwise to nothing. -/
theorem resolve_finds (net : Network) (nest : Nat) (domain : Bytes) (type : DNSRecordType)
    (hdomain : isValidDomainName domain = true) {d n : Nat} {found : List Bytes}
    (htrail : Trail net d domain type 0 rootServers 0 n found) (hnest : d ≤ nest) (tr : List Event) :
    ∃ tr', resolve net (nest + 1) domain type tr =
      (.ok (if n ≤ maxIterations then (true, found) else (false, [])), tr') := by
  rw [resolve, if_pos hdomain, iterativeResolve_succ]
  exact htrail.ends tr hnest rfl rfl rfl rfl

/-- The root refers to a server that has the address. -/
def twoServers : Network where
  time _ := 0
  udp
    | .udp server _ :: _ =>
      some (if server = inetNtop4 [6, 6, 6, 6] then addressResponse else referralFor 0x6E)
    | _ => none
  tcp _ := none

theorem resolve_finds_twoServers :
    ∃ tr', resolve twoServers 1 [0x61] .A [] = (.ok (true, [inetNtop4 [1, 2, 3, 4]]), tr') := by
  have hquery : createDNSQuery 0 [0x61] .A = .ok (queryFor 0 [[0x61]] .A) := rfl
  have hroot : ∀ server, server ≠ inetNtop4 [6, 6, 6, 6] →
      Says twoServers server [0x61] .A ⟨[], [serverRecord], [addressRecord 0x6E]⟩ := by
    intro server hserver tr
    have hudp : ∀ query, twoServers.udp (.udp server query :: .asked [0x61] :: tr) =
        some (referralFor 0x6E) := fun query => congrArg some (if_neg hserver)
    have hask := (@ask_accepted twoServers server [0x61] (referralFor 0x6E) _ .A tr rfl hquery
      (hudp _) (by decide)).trans (if_neg (by decide))
    exact ⟨_, _, hask, by decide +kernel⟩
  have hlast : Says twoServers (inetNtop4 [6, 6, 6, 6]) [0x61] .A ⟨[addressAnswer], [], []⟩ := by
    intro tr
    have hudp : ∀ query, twoServers.udp (.udp (inetNtop4 [6, 6, 6, 6]) query :: .asked [0x61] :: tr) =
        some addressResponse := fun query => congrArg some (if_pos rfl)
    have hask := (@ask_accepted twoServers (inetNtop4 [6, 6, 6, 6]) [0x61] addressResponse _ .A tr rfl
      hquery (hudp _) (by decide)).trans (if_neg (by decide))
    exact ⟨_, _, hask, parse_addressResponse⟩
  have haddresses : addresses [addressRecord 0x6E] = [inetNtop4 [6, 6, 6, 6]] := by decide
  have htrail : Trail twoServers 0 [0x61] .A 0 rootServers 0 2 [inetNtop4 [1, 2, 3, 4]] := by
    have hend : Trail twoServers 0 [0x61] .A 1 (addresses [addressRecord 0x6E]) 0 1
        (taken .A [addressAnswer]) := by
      rw [haddresses]
      exact .answered (by decide) hlast (by decide)
    exact .glued (by decide) (hroot _ (by decide +kernel)) (by decide) (by decide)
      (by rw [haddresses]; exact List.cons_ne_nil _ _) hend
  exact resolve_finds twoServers 0 [0x61] .A (by decide) htrail (Nat.le_refl 0) []

end Dns
