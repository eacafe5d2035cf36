import ComputerNetworks.Lib.Threads
import ComputerNetworks.Proxy.Handle
import Mathlib.Data.Fintype.BigOperators

/-!
# The statistics of the proxy

`handleClient` as a thread that shares the files, the cache mutex and the statistics with any number
of others, for requests with any keys.
-/

universe u

open Lib Lib.Bytes

namespace Proxy

/-! ## The threads -/

/-- What `handleClient` does to what it shares. The mutex is held while `isCached` and `getCacheEntry`
run, and from `openSave` to `saveMetadata`. -/
inductive Action where
  | updateStats (cacheHit error : Bool)
  | isCached (cacheKey : Bytes)
  | getCacheEntry (cacheKey : Bytes)
  | openRead (filePath : Bytes)
  | read (filePath : Bytes)
  | fetchFromServer (request : ParsedRequest)
  | openSave (cacheKey : Bytes)
  | write (cacheKey response : Bytes)
  | saveMetadata (cacheKey : Bytes) (statusCode : Int)

abbrev Action.Result : Action → Type
  | .isCached _ => Bool
  | .getCacheEntry _ => Option CacheEntry
  | .openRead _ => Bool
  | .read _ => Bytes
  | .fetchFromServer _ => Bytes
  | .openSave _ => Bool
  | _ => Unit

inductive Outcome where
  | refused (response : Bytes)
  | hit (response : Bytes)
  | fetched (response : Bytes)
  /-- The response to an exception. -/
  | failed (response : Bytes)
  deriving DecidableEq

abbrev Client := Thread Action Action.Result Outcome

def saving (request : ParsedRequest) (response : Bytes) : Client :=
  .act (.openSave (generateCacheKey request)) fun (opened : Bool) =>
    if opened then
      .act (.write (generateCacheKey request) response) fun _ =>
      .act (.saveMetadata (generateCacheKey request) (extractStatusCode response)) fun _ =>
      .done (.fetched (orInternalError response))
    else .done (.fetched (orInternalError response))

def missing (request : ParsedRequest) : Client :=
  .act (.updateStats false false) fun _ =>
  .act (.fetchFromServer request) fun (response : Bytes) =>
  if response ≠ [] ∧ shouldCache (extractStatusCode response) = true then
    saving request response
  else .done (.fetched (orInternalError response))

/-- The branch of an entry in the cache. -/
def entering (request : ParsedRequest) : Option CacheEntry → Client
  | none =>
    .act (.updateStats false true) fun _ =>
    .done (.failed (createErrorResponse 500 (ofString "Internal Server Error")
      (ofString "Proxy server error: " ++ ofString "stoi")))
  | some entry =>
    if entry.statusCode = 200 then
      .act (.openRead entry.filePath) fun (opened : Bool) =>
      if opened then
        .act (.read entry.filePath) fun (response : Bytes) =>
        .act (.updateStats true false) fun _ =>
        .done (.hit (orInternalError response))
      else missing request
    else missing request

/-- `handleClient`, once `request` is parsed. -/
def handleClient (request : ParsedRequest) : Client :=
  match refusal request with
  | some response => .done (.refused response)
  | none =>
    .act (.updateStats false false) fun _ =>
    if request.method = ofString "GET" then
      .act (.isCached (generateCacheKey request)) fun (cached : Bool) =>
      if cached then .act (.getCacheEntry (generateCacheKey request)) (entering request)
      else missing request
    else missing request

/-! ## What they share -/

structure Shared where
  server : Server
  /-- `cacheMutex_`, as far as it is held between two actions. -/
  locked : Bool

/-- What an action gives and leaves behind. The openings of files, the origins and the time are those
of the moment. -/
def Exec (cacheDir : Bytes) : (a : Action) → Shared → a.Result → Shared → Prop
  | .updateStats cacheHit error, g, _, g' =>
    g' = { g with server := g.server.updateStats cacheHit error }
  | .isCached cacheKey, g, cached, g' =>
    g.locked = false ∧ g' = g ∧ ∃ opens, cached = Proxy.isCached g.server.files opens cacheDir cacheKey
  | .getCacheEntry cacheKey, g, entry, g' =>
    g.locked = false ∧ g' = g ∧
      ∃ opens, entry = Proxy.getCacheEntry g.server.files opens cacheDir cacheKey
  | .openRead filePath, g, opened, g' =>
    g' = g ∧ ∃ opens, opened = (Proxy.openRead g.server.files opens filePath).isSome
  | .read filePath, g, text, g' => g' = g ∧ text = (g.server.files filePath).getD []
  | .fetchFromServer request, g, response, g' =>
    g' = g ∧ ∃ net, response = Proxy.fetchFromServer net request
  | .openSave cacheKey, g, opened, g' =>
    g.locked = false ∧ (opened = false ∧ g' = g ∨ opened = true ∧
      g' =
        { server :=
            { g.server with files := g.server.files.write (getCacheFilePath cacheDir cacheKey) [] }
          locked := true })
  | .write cacheKey response, g, _, g' =>
    g' =
      { g with
        server :=
          { g.server with
            files := g.server.files.write (getCacheFilePath cacheDir cacheKey) response } }
  | .saveMetadata cacheKey statusCode, g, _, g' =>
    ∃ (opens : Bool) (time : Int), g' =
      { server :=
          { g.server with
            files :=
              if opens = true then
                g.server.files.write (metaPath (getCacheFilePath cacheDir cacheKey))
                  (metadata statusCode time)
              else g.server.files }
        locked := false }

/-- The statistics of a server that has just been started. -/
def Stats.zero : Stats := { totalRequests := 0, cacheHits := 0, cacheMisses := 0, errors := 0 }

def Shared.Fresh (g : Shared) : Prop := g.server.stats = Stats.zero ∧ g.locked = false

/-- The requests of a server, each in a thread of its own. -/
def serving {ι : Type u} [DecidableEq ι] (cacheDir : Bytes) (request : ι → ParsedRequest) :
    System (Threads ι Shared Action Action.Result Outcome) :=
  Threads.interleaving (fun i => handleClient (request i)) Shared.Fresh (Exec cacheDir)

/-- A server that has just been started in a directory with some files. -/
def servingFrom {ι : Type u} [DecidableEq ι] (cacheDir : Bytes) (files : Files) (request : ι → ParsedRequest) :
    System (Threads ι Shared Action Action.Result Outcome) :=
  Threads.interleaving (fun i => handleClient (request i))
    (fun g => g.Fresh ∧ g.server.files = files) (Exec cacheDir)

/-! ## One thread alone -/

def Outcome.response : Outcome → Bytes
  | .refused response => response
  | .hit response => response
  | .fetched response => response
  | .failed response => response

def Outcome.isHit : Outcome → Bool
  | .hit _ => true
  | _ => false

def Outcome.isFetched : Outcome → Bool
  | .fetched _ => true
  | _ => false

theorem missing_runs (cacheDir : Bytes) (world : World) (server : Server) (request : ParsedRequest) :
    (missing request).Runs (Exec cacheDir) ⟨server, false⟩
      (.fetched (orInternalError (fetchFromServer world.net request)))
      ⟨{ server.updateStats false false with
          files := keep server.files world.openings cacheDir request
            (fetchFromServer world.net request) world.time }, false⟩ := by
  refine .act () rfl (.act (fetchFromServer world.net request) ⟨rfl, world.net, rfl⟩ ?_)
  generalize fetchFromServer world.net request = response
  unfold keep
  dsimp only
  split
  swap
  · exact .done _ _
  cases hsave : world.openings.save with
  | false =>
    rw [saveToCache, hsave]
    exact .act false ⟨rfl, Or.inl ⟨rfl, rfl⟩⟩ (.done _ _)
  | true =>
    rw [saveToCache, hsave]
    exact .act true ⟨rfl, Or.inr ⟨rfl, rfl⟩⟩
      (.act () rfl (.act () ⟨world.openings.saveMetadata, world.time, rfl⟩ (.done _ _)))

/-- What `handleParsed` makes of what `lookup` found, and the outcome that goes with it. -/
def afterCache (cacheDir : Bytes) (world : World) (server : Server) (request : ParsedRequest) :
    Except Bytes (Option Bytes) → Server × Outcome
  | .error what =>
    (server.updateStats false true,
      .failed (createErrorResponse 500 (ofString "Internal Server Error")
        (ofString "Proxy server error: " ++ what)))
  | .ok (some response) => (server.updateStats true false, .hit (orInternalError response))
  | .ok none =>
    ({ server.updateStats false false with
        files := keep server.files world.openings cacheDir request
          (fetchFromServer world.net request) world.time },
      .fetched (orInternalError (fetchFromServer world.net request)))

theorem lookup_runs (cacheDir : Bytes) (world : World) (server : Server) (request : ParsedRequest) :
    Thread.Runs (Exec cacheDir)
      (if request.method = ofString "GET" then
        .act (.isCached (generateCacheKey request)) fun (cached : Bool) =>
        if cached then .act (.getCacheEntry (generateCacheKey request)) (entering request)
        else missing request
      else missing request) ⟨server, false⟩
      (afterCache cacheDir world server request
        (lookup server.files world.openings cacheDir request)).2
      ⟨(afterCache cacheDir world server request
        (lookup server.files world.openings cacheDir request)).1, false⟩ := by
  have hmissing := missing_runs cacheDir world server request
  unfold lookup
  dsimp only
  by_cases hget : request.method = ofString "GET"
  swap
  · rw [if_neg hget, if_neg fun h => hget h.1]
    exact hmissing
  rw [if_pos hget]
  refine .act (isCached server.files world.openings.isCached cacheDir (generateCacheKey request))
    ⟨rfl, rfl, world.openings.isCached, rfl⟩ ?_
  by_cases hcached : isCached server.files world.openings.isCached cacheDir
      (generateCacheKey request) = true
  swap
  · rw [if_neg hcached, if_neg fun h => hcached h.2]
    exact hmissing
  rw [if_pos hcached, if_pos ⟨hget, hcached⟩]
  refine .act (getCacheEntry server.files world.openings.metadata cacheDir
    (generateCacheKey request)) ⟨rfl, rfl, world.openings.metadata, rfl⟩ ?_
  cases getCacheEntry server.files world.openings.metadata cacheDir (generateCacheKey request) with
  | none => exact .act () rfl (.done _ _)
  | some entry =>
    dsimp only [entering]
    by_cases hstatus : entry.statusCode = 200
    swap
    · rw [if_neg hstatus, if_neg hstatus]
      exact hmissing
    rw [if_pos hstatus, if_pos hstatus]
    refine .act (openRead server.files world.openings.response entry.filePath).isSome
      ⟨rfl, world.openings.response, rfl⟩ ?_
    cases hopen : openRead server.files world.openings.response entry.filePath with
    | none => exact hmissing
    | some text =>
      refine .act text ⟨rfl, ?_⟩ (.act () rfl (.done _ _))
      rw [openRead_eq_some hopen, Option.getD_some]

/-- **One thread alone.** A thread that nothing comes between does what `handleParsed` does. -/
theorem handleClient_runs (cacheDir : Bytes) (world : World) (server : Server)
    (request : ParsedRequest) :
    ∃ outcome : Outcome, (handleClient request).Runs (Exec cacheDir) ⟨server, false⟩ outcome
        ⟨(handleParsed cacheDir world server request).server, false⟩ ∧
      outcome.response = (handleParsed cacheDir world server request).response ∧
      outcome.isFetched = (handleParsed cacheDir world server request).fetched := by
  unfold handleClient handleParsed
  cases refusal request with
  | some response => exact ⟨.refused response, .done _ _, rfl, rfl⟩
  | none =>
    have hruns := lookup_runs cacheDir world (server.updateStats false false) request
    dsimp only
    generalize lookup (server.updateStats false false).files world.openings cacheDir request =
      found at hruns ⊢
    match found with
    | .error what => exact ⟨_, .act () rfl hruns, rfl, rfl⟩
    | .ok (some response) => exact ⟨_, .act () rfl hruns, rfl, rfl⟩
    | .ok none => exact ⟨_, .act () rfl hruns, rfl, rfl⟩

/-! ## What a thread counts -/

section Counting

variable {μ : Type} [AddCommMonoid μ] (f : Bool → Bool → μ)

/-- What an action adds, where `f` says what a call of `updateStats` adds. -/
def Action.weight : Action → μ
  | .updateStats cacheHit error => f cacheHit error
  | _ => 0

/-- What the calls on the way to an outcome add up to. -/
def Outcome.worth : Outcome → μ
  | .refused _ => 0
  | .hit _ => f false false + f true false
  | .fetched _ => f false false + f false false
  | .failed _ => f false false + f false true

theorem missing_spends (request : ParsedRequest) :
    (missing request).Spends (Action.weight f) (Outcome.worth f) (f false false) := by
  intro _ response
  dsimp only
  split
  · intro opened
    dsimp only
    split
    · intro _ _
      simp [Thread.Spends, Action.weight, Outcome.worth]
    · simp [Thread.Spends, Action.weight, Outcome.worth]
  · simp [Thread.Spends, Action.weight, Outcome.worth]

theorem entering_spends (request : ParsedRequest) (entry : Option CacheEntry) :
    (entering request entry).Spends (Action.weight f) (Outcome.worth f) (f false false) := by
  cases entry with
  | none =>
    intro _
    simp [Thread.Spends, Action.weight, Outcome.worth]
  | some entry =>
    rw [entering]
    split
    swap
    · exact missing_spends f request
    intro opened
    dsimp only
    split
    · intro _ _
      simp [Thread.Spends, Action.weight, Outcome.worth]
    · exact (add_zero (f false false)).symm ▸ missing_spends f request

theorem handleClient_spends (request : ParsedRequest) :
    (handleClient request).Spends (Action.weight f) (Outcome.worth f) 0 := by
  unfold handleClient
  cases refusal request with
  | some response => rfl
  | none =>
    intro _
    have hcounted : 0 + f false false = f false false := zero_add _
    have hread : 0 + f false false + 0 = f false false := (add_zero _).trans hcounted
    dsimp only
    split
    swap
    · exact hcounted.symm ▸ missing_spends f request
    intro cached
    dsimp only
    split
    swap
    · exact hread.symm ▸ missing_spends f request
    intro entry
    exact ((add_zero _).trans hread).symm ▸ entering_spends f request entry

theorem exec_tally {tally : Stats → μ} (htally : ∀ (server : Server) cacheHit error,
    tally (server.updateStats cacheHit error).stats = tally server.stats + f cacheHit error)
    {cacheDir : Bytes} (a : Action) (g : Shared) (r : a.Result) (g' : Shared)
    (h : Exec cacheDir a g r g') :
    tally g'.server.stats = tally g.server.stats + a.weight f := by
  cases a with
  | updateStats cacheHit error =>
    cases h
    exact htally g.server cacheHit error
  | isCached _ | getCacheEntry _ =>
    obtain ⟨-, rfl, -⟩ := h
    exact (add_zero _).symm
  | openRead _ | read _ | fetchFromServer _ =>
    obtain ⟨rfl, -⟩ := h
    exact (add_zero _).symm
  | openSave cacheKey =>
    obtain ⟨-, ⟨-, rfl⟩ | ⟨-, rfl⟩⟩ := h
    · exact (add_zero _).symm
    · exact (add_zero _).symm
  | write cacheKey response =>
    cases h
    exact (add_zero _).symm
  | saveMetadata cacheKey statusCode =>
    obtain ⟨opens, time, rfl⟩ := h
    exact (add_zero _).symm

end Counting

/-! ## The theorem -/

/-- The request was neither refused nor ended by an exception. -/
def Outcome.Served (o : Outcome) : Prop := o.isHit = true ∨ o.isFetched = true

section Totals

variable {ι : Type u} [DecidableEq ι] [Fintype ι] {cacheDir : Bytes} {request : ι → ParsedRequest}
  {s : Threads ι Shared Action Action.Result Outcome} {outcome : ι → Outcome}

/-- The number of requests that were answered from the cache. -/
def hits (outcome : ι → Outcome) : Nat :=
  (Finset.univ.filter fun i => (outcome i).isHit = true).card

/-- The number of requests for which an origin was asked. -/
def fetches (outcome : ι → Outcome) : Nat :=
  (Finset.univ.filter fun i => (outcome i).isFetched = true).card

/-- Each request is counted once, and as what it was. -/
def CountedOnce (stats : Stats) (outcome : ι → Outcome) : Prop :=
  stats.totalRequests = Fintype.card ι ∧ stats.cacheHits = hits outcome ∧
    stats.cacheMisses = fetches outcome ∧ stats.totalRequests = stats.cacheHits + stats.cacheMisses

theorem stats_of_done {μ : Type} [AddCommMonoid μ] (f : Bool → Bool → μ) (tally : Stats → μ)
    (htally : ∀ (server : Server) cacheHit error,
      tally (server.updateStats cacheHit error).stats = tally server.stats + f cacheHit error)
    (hzero : tally Stats.zero = 0) (h : (serving cacheDir request).Reachable s)
    (hdone : ∀ i, s.thread i = .done (outcome i)) :
    tally s.shared.server.stats = ∑ i, (outcome i).worth f :=
  Threads.tally_of_done (fun g => tally g.server.stats) (exec_tally f htally)
    (fun i => handleClient_spends f (request i)) (fun g hg => by rw [hg.1, hzero]) h hdone

theorem Outcome.Served.worth {μ : Type} [AddCommMonoid μ] (f : Bool → Bool → μ) {o : Outcome}
    (h : o.Served) :
    o.worth f = f false false + ((if o.isHit = true then f true false else 0) +
      if o.isFetched = true then f false false else 0) := by
  cases o with
  | hit => exact congrArg (f false false + ·) (add_zero _).symm
  | fetched => exact congrArg (f false false + ·) (zero_add _).symm
  | refused => exact absurd h (by simp [Served, isHit, isFetched])
  | failed => exact absurd h (by simp [Served, isHit, isFetched])

omit [DecidableEq ι] in
theorem sum_worth (f : Bool → Bool → Nat) (hserved : ∀ i, (outcome i).Served) :
    ∑ i, (outcome i).worth f = Fintype.card ι * f false false +
      (hits outcome * f true false + fetches outcome * f false false) := by
  rw [Finset.sum_congr rfl fun i _ => (hserved i).worth f, Finset.sum_add_distrib,
    Finset.sum_add_distrib, ← Finset.sum_filter, ← Finset.sum_filter, Finset.sum_const,
    Finset.sum_const, Finset.sum_const]
  rfl

omit [DecidableEq ι] in
theorem hits_add_fetches (hserved : ∀ i, (outcome i).Served) :
    hits outcome + fetches outcome = Fintype.card ι := by
  have hone : ∀ i, ((if (outcome i).isHit = true then 1 else 0) +
      if (outcome i).isFetched = true then 1 else 0) = 1 := by
    intro i
    have hi := hserved i
    cases hout : outcome i <;> simp_all [Outcome.Served, Outcome.isHit, Outcome.isFetched]
  rw [hits, fetches, Finset.card_filter, Finset.card_filter, ← Finset.sum_add_distrib,
    Finset.sum_congr rfl fun i _ => hone i, ← Finset.card_eq_sum_ones]
  rfl

theorem stats_of_served (h : (serving cacheDir request).Reachable s)
    (hdone : ∀ i, s.thread i = .done (outcome i)) (hserved : ∀ i, (outcome i).Served) :
    s.shared.server.stats.totalRequests = 2 * Fintype.card ι ∧
      s.shared.server.stats.cacheHits = hits outcome ∧
      s.shared.server.stats.cacheMisses = Fintype.card ι + fetches outcome := by
  have htotal := stats_of_done (fun _ _ => 1) Stats.totalRequests (fun _ _ _ => rfl) rfl h hdone
  have hhits := stats_of_done (fun cacheHit _ => if cacheHit then 1 else 0) Stats.cacheHits
    (fun _ _ _ => rfl) rfl h hdone
  have hmisses := stats_of_done (fun cacheHit _ => if cacheHit then 0 else 1) Stats.cacheMisses
    (fun _ _ _ => rfl) rfl h hdone
  have hsplit := hits_add_fetches hserved
  rw [sum_worth _ hserved] at htotal hhits hmisses
  refine ⟨by omega, ?_, ?_⟩
  · simpa using hhits
  · simpa using hmisses

/-- **Statistics.** When all of the requests have been served, the counters are what they should be
exactly if there were none. -/
theorem stats_count_iff (cacheDir : Bytes) (request : ι → ParsedRequest)
    (s : Threads ι Shared Action Action.Result Outcome) (outcome : ι → Outcome)
    (h : (serving cacheDir request).Reachable s) (hdone : ∀ i, s.thread i = .done (outcome i))
    (hserved : ∀ i, (outcome i).Served) :
    CountedOnce s.shared.server.stats outcome ↔ Fintype.card ι = 0 := by
  obtain ⟨htotal, hhits, hmisses⟩ := stats_of_served h hdone hserved
  have hsplit := hits_add_fetches hserved
  unfold CountedOnce
  omega

end Totals

def pageRequest : ParsedRequest :=
  { ParsedRequest.default with method := ofString "GET", host := ofString "h", path := ofString "/p" }

/-- A server that has just been started, with one request to it. -/
def onlyPage : System (Threads (Fin 1) Shared Action Action.Result Outcome) :=
  serving (ofString "./cache") fun _ => pageRequest

theorem onlyPage_served : ∃ s, ∃ outcome : Fin 1 → Outcome, onlyPage.Reachable s ∧
    (∀ i, s.thread i = .done (outcome i)) ∧ ∀ i, (outcome i).Served := by
  let s₀ : Threads (Fin 1) Shared Action Action.Result Outcome :=
    { shared := ⟨⟨fun _ => none, Stats.zero⟩, false⟩, thread := fun _ => handleClient pageRequest }
  have h0 : onlyPage.Reachable s₀ := .init ⟨⟨rfl, rfl⟩, rfl⟩
  obtain ⟨outcome, hruns, -, hfetched⟩ := handleClient_runs (ofString "./cache")
    ⟨.all, .giving [], 0⟩ ⟨fun _ => none, Stats.zero⟩ pageRequest
  have hleads : onlyPage.Leads s₀ _ := Threads.leads_of_runs hruns s₀ (i := 0) rfl rfl
  refine ⟨_, fun _ => outcome, h0.leads hleads, fun i => ?_, fun _ => Or.inr (hfetched.trans rfl)⟩
  rw [Subsingleton.elim i 0, Threads.go_self]

theorem stats_count_onlyPage : ∃ s, ∃ outcome : Fin 1 → Outcome, onlyPage.Reachable s ∧
    (∀ i, s.thread i = .done (outcome i)) ∧ ¬CountedOnce s.shared.server.stats outcome := by
  obtain ⟨s, outcome, h, hdone, hserved⟩ := onlyPage_served
  refine ⟨s, outcome, h, hdone, fun hcount => ?_⟩
  exact absurd ((stats_count_iff _ _ s outcome h hdone hserved).mp hcount) (by decide)

/-- One request, and two are counted. -/
theorem onlyPage_counted_twice :
    ¬ ∀ (n : Nat) (cacheDir : Bytes) (request : Fin n → ParsedRequest)
      (s : Threads (Fin n) Shared Action Action.Result Outcome) (outcome : Fin n → Outcome),
      (serving cacheDir request).Reachable s → (∀ i, s.thread i = .done (outcome i)) →
      (∀ i, (outcome i).Served) → CountedOnce s.shared.server.stats outcome := by
  intro hclaim
  obtain ⟨s, outcome, h, hdone, hserved⟩ := onlyPage_served
  obtain ⟨hone, -⟩ := hclaim 1 _ _ s outcome h hdone hserved
  obtain ⟨htwo, -⟩ := stats_of_served h hdone hserved
  rw [hone, Fintype.card_fin] at htwo
  cases htwo

end Proxy
