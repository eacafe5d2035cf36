import ComputerNetworks.Lib.Apart
import ComputerNetworks.Proxy.Statistics

/-!
# Requests with files of their own

Requests that are handled at once, none of which shares a cache file with another. In any order of the
actions of their threads they come to what they come to one after the other.
-/

universe u

open Lib Lib.Bytes

namespace Proxy

/-! ## What a thread does to the files -/

/-- `Exec`, as far as it is about the files. -/
def FilesExec (cacheDir : Bytes) : (a : Action) → Files → a.Result → Files → Prop
  | .updateStats _ _, files, _, files' => files' = files
  | .isCached cacheKey, files, cached, files' =>
    files' = files ∧ ∃ opens, cached = Proxy.isCached files opens cacheDir cacheKey
  | .getCacheEntry cacheKey, files, entry, files' =>
    files' = files ∧ ∃ opens, entry = Proxy.getCacheEntry files opens cacheDir cacheKey
  | .openRead filePath, files, opened, files' =>
    files' = files ∧ ∃ opens, opened = (Proxy.openRead files opens filePath).isSome
  | .read filePath, files, text, files' => files' = files ∧ text = (files filePath).getD []
  | .fetchFromServer request, files, response, files' =>
    files' = files ∧ ∃ net, response = Proxy.fetchFromServer net request
  | .openSave cacheKey, files, opened, files' =>
    opened = false ∧ files' = files ∨
      opened = true ∧ files' = files.write (getCacheFilePath cacheDir cacheKey) []
  | .write cacheKey response, files, _, files' =>
    files' = files.write (getCacheFilePath cacheDir cacheKey) response
  | .saveMetadata cacheKey statusCode, files, _, files' =>
    ∃ (opens : Bool) (time : Int), files' =
      if opens = true then
        files.write (metaPath (getCacheFilePath cacheDir cacheKey)) (metadata statusCode time)
      else files

theorem Exec.files {cacheDir : Bytes} {a : Action} {g g' : Shared} {r : a.Result}
    (h : Exec cacheDir a g r g') : FilesExec cacheDir a g.server.files r g'.server.files := by
  cases a with
  | updateStats cacheHit error => cases h; rfl
  | isCached _ | getCacheEntry _ =>
    obtain ⟨-, rfl, hopens⟩ := h
    exact ⟨rfl, hopens⟩
  | openRead _ | read _ | fetchFromServer _ =>
    obtain ⟨rfl, hresult⟩ := h
    exact ⟨rfl, hresult⟩
  | openSave cacheKey =>
    obtain ⟨-, ⟨hopened, rfl⟩ | ⟨hopened, rfl⟩⟩ := h
    · exact .inl ⟨hopened, rfl⟩
    · exact .inr ⟨hopened, rfl⟩
  | write cacheKey response => cases h; rfl
  | saveMetadata cacheKey statusCode =>
    obtain ⟨opens, time, rfl⟩ := h
    exact ⟨opens, time, rfl⟩

/-! ## The files of a request -/

section Own

variable (cacheDir : Bytes) (request : ParsedRequest)

def filePath : Bytes := getCacheFilePath cacheDir (generateCacheKey request)

/-- The response file and the metadata file. -/
def ownFiles : List Bytes := [filePath cacheDir request, metaPath (filePath cacheDir request)]

/-- The actions of a thread that handles this request. -/
def Action.Mine : Action → Prop
  | .isCached cacheKey => cacheKey = generateCacheKey request
  | .getCacheEntry cacheKey => cacheKey = generateCacheKey request
  | .openRead path => path = filePath cacheDir request
  | .read path => path = filePath cacheDir request
  | .openSave cacheKey => cacheKey = generateCacheKey request
  | .write cacheKey _ => cacheKey = generateCacheKey request
  | .saveMetadata cacheKey _ => cacheKey = generateCacheKey request
  | _ => True

def SameOwn (files files' : Files) : Prop := ∀ path ∈ ownFiles cacheDir request, files path = files' path

end Own

section Apart

variable {cacheDir : Bytes} {request : ParsedRequest} {files files' other : Files}

theorem SameOwn.file (h : SameOwn cacheDir request files files') :
    files (filePath cacheDir request) = files' (filePath cacheDir request) :=
  h _ List.mem_cons_self

theorem SameOwn.meta (h : SameOwn cacheDir request files files') :
    files (metaPath (filePath cacheDir request)) = files' (metaPath (filePath cacheDir request)) :=
  h _ (List.mem_cons_of_mem _ List.mem_cons_self)

theorem SameOwn.write (h : SameOwn cacheDir request files files') (p contents : Bytes) :
    SameOwn cacheDir request (files.write p contents) (files'.write p contents) := by
  intro path hpath
  unfold Files.write
  rw [h path hpath]

theorem FilesExec.outside {a : Action} {r : a.Result} (hmine : a.Mine cacheDir request)
    (h : FilesExec cacheDir a files r files') {path : Bytes} (hpath : path ∉ ownFiles cacheDir request) :
    files' path = files path := by
  have hfile : path ≠ filePath cacheDir request := fun heq => hpath (heq ▸ List.mem_cons_self)
  have hmeta : path ≠ metaPath (filePath cacheDir request) :=
    fun heq => hpath (heq ▸ List.mem_cons_of_mem _ List.mem_cons_self)
  cases a with
  | updateStats cacheHit error => rw [show files' = files from h]
  | isCached _ | getCacheEntry _ | openRead _ | read _ | fetchFromServer _ => rw [h.1]
  | openSave cacheKey =>
    cases hmine
    obtain ⟨-, rfl⟩ | ⟨-, rfl⟩ := h
    · rfl
    · exact files.write_of_ne hfile []
  | write cacheKey response =>
    cases hmine
    cases h
    exact files.write_of_ne hfile response
  | saveMetadata cacheKey statusCode =>
    cases hmine
    obtain ⟨opens, time, rfl⟩ := h
    split
    · exact files.write_of_ne hmeta _
    · rfl

theorem getCacheEntry_own (h : SameOwn cacheDir request files other) (opens : Bool) :
    getCacheEntry files opens cacheDir (generateCacheKey request) =
      getCacheEntry other opens cacheDir (generateCacheKey request) := by
  have hmeta := h.meta
  unfold filePath at hmeta
  unfold getCacheEntry openRead
  dsimp only
  rw [hmeta]

theorem FilesExec.own {a : Action} {r : a.Result} (hmine : a.Mine cacheDir request)
    (h : FilesExec cacheDir a files r files') (hsame : SameOwn cacheDir request files other) :
    ∃ other', FilesExec cacheDir a other r other' ∧ SameOwn cacheDir request files' other' := by
  have hfile := hsame.file
  cases a with
  | updateStats cacheHit error => exact ⟨other, rfl, (show files' = files from h) ▸ hsame⟩
  | isCached cacheKey =>
    cases hmine
    obtain ⟨rfl, opens, rfl⟩ := h
    refine ⟨other, ⟨rfl, opens, ?_⟩, hsame⟩
    unfold filePath at hfile
    unfold isCached openRead
    rw [hfile]
  | getCacheEntry cacheKey =>
    cases hmine
    obtain ⟨rfl, opens, rfl⟩ := h
    exact ⟨other, ⟨rfl, opens, getCacheEntry_own hsame opens⟩, hsame⟩
  | openRead path =>
    cases hmine
    obtain ⟨rfl, opens, rfl⟩ := h
    refine ⟨other, ⟨rfl, opens, ?_⟩, hsame⟩
    unfold openRead
    rw [hfile]
  | read path =>
    cases hmine
    obtain ⟨rfl, rfl⟩ := h
    exact ⟨other, ⟨rfl, by rw [hfile]⟩, hsame⟩
  | fetchFromServer _ =>
    obtain ⟨rfl, hnet⟩ := h
    exact ⟨other, ⟨rfl, hnet⟩, hsame⟩
  | openSave cacheKey =>
    obtain ⟨hopened, rfl⟩ | ⟨hopened, rfl⟩ := h
    · exact ⟨other, .inl ⟨hopened, rfl⟩, hsame⟩
    · exact ⟨_, .inr ⟨hopened, rfl⟩, hsame.write _ _⟩
  | write cacheKey response =>
    cases h
    exact ⟨_, rfl, hsame.write _ _⟩
  | saveMetadata cacheKey statusCode =>
    obtain ⟨opens, time, rfl⟩ := h
    refine ⟨_, ⟨opens, time, rfl⟩, ?_⟩
    split
    · exact hsame.write _ _
    · exact hsame

theorem takes_saving (response : Bytes) :
    (saving request response).Takes (FilesExec cacheDir) (Action.Mine cacheDir request) := by
  refine ⟨rfl, fun _ opened _ _ => ?_⟩
  dsimp only
  split
  · exact ⟨rfl, fun _ _ _ _ => ⟨rfl, fun _ _ _ _ => trivial⟩⟩
  · trivial

theorem takes_missing : (missing request).Takes (FilesExec cacheDir) (Action.Mine cacheDir request) := by
  refine ⟨trivial, fun _ _ _ _ => ⟨trivial, fun _ response _ _ => ?_⟩⟩
  dsimp only
  split
  · exact takes_saving response
  · trivial

theorem takes_entering {entry : Option CacheEntry}
    (hentry : ∀ e, entry = some e → e.filePath = filePath cacheDir request) :
    (entering request entry).Takes (FilesExec cacheDir) (Action.Mine cacheDir request) := by
  cases entry with
  | none => exact ⟨trivial, fun _ _ _ _ => trivial⟩
  | some entry =>
    rw [entering]
    split
    swap
    · exact takes_missing
    refine ⟨hentry entry rfl, fun _ opened _ _ => ?_⟩
    dsimp only
    split
    · exact ⟨hentry entry rfl, fun _ _ _ _ => ⟨trivial, fun _ _ _ _ => trivial⟩⟩
    · exact takes_missing

theorem takes_handleClient :
    (handleClient request).Takes (FilesExec cacheDir) (Action.Mine cacheDir request) := by
  unfold handleClient
  split
  · trivial
  refine ⟨trivial, fun _ _ _ _ => ?_⟩
  dsimp only
  split
  swap
  · exact takes_missing
  refine ⟨rfl, fun _ cached _ _ => ?_⟩
  dsimp only
  split
  swap
  · exact takes_missing
  refine ⟨rfl, fun _ entry _ hexec => takes_entering fun e he => ?_⟩
  obtain ⟨-, opens, hopens⟩ := hexec
  exact getCacheEntry_filePath (hopens.symm.trans he)

/-! ## One thread alone -/

/-- What is counted on the way to an outcome. -/
def Outcome.counted : Outcome → Server → Server
  | .refused _, server => server
  | .hit _, server => (server.updateStats false false).updateStats true false
  | .fetched _, server => (server.updateStats false false).updateStats false false
  | .failed _, server => (server.updateStats false false).updateStats false true

/-- What the handling of a request by itself comes to. -/
def Outcome.handled (outcome : Outcome) (files : Files) (stats : Stats) : Handled where
  server := { files, stats := (outcome.counted { files, stats }).stats }
  response := outcome.response
  fetched := outcome.isFetched

theorem missing_alone {outcome : Outcome}
    (h : (missing request).Runs (FilesExec cacheDir) files outcome files') :
    ∃ net save saveMetadata time,
      outcome = .fetched (orInternalError (fetchFromServer net request)) ∧
      ∀ openings : Openings, openings.save = save → openings.saveMetadata = saveMetadata →
        files' = keep files openings cacheDir request (fetchFromServer net request) time := by
  unfold missing at h
  obtain ⟨-, _, rfl, hfetch⟩ := Thread.runs_act.mp h
  obtain ⟨_, _, ⟨rfl, net, rfl⟩, hsave⟩ := Thread.runs_act.mp hfetch
  unfold keep
  split at hsave
  swap
  · next hkeep =>
    obtain ⟨rfl, rfl⟩ := Thread.runs_done.mp hsave
    exact ⟨net, true, true, 0, rfl, fun _ _ _ => (if_neg hkeep).symm⟩
  next hkeep =>
  obtain ⟨opened, _, hopened, hwrite⟩ := Thread.runs_act.mp hsave
  obtain ⟨rfl, rfl⟩ | ⟨rfl, rfl⟩ := hopened
  · obtain ⟨rfl, rfl⟩ := Thread.runs_done.mp hwrite
    refine ⟨net, false, true, 0, rfl, fun openings hsave _ => ?_⟩
    rw [if_pos hkeep, saveToCache, hsave]
    rfl
  · obtain ⟨-, _, rfl, hmetadata⟩ := Thread.runs_act.mp hwrite
    obtain ⟨-, _, ⟨opens, time, rfl⟩, hdone⟩ := Thread.runs_act.mp hmetadata
    obtain ⟨rfl, rfl⟩ := Thread.runs_done.mp hdone
    refine ⟨net, true, opens, time, rfl, fun openings hsave hmeta => ?_⟩
    rw [if_pos hkeep, saveToCache, hsave, hmeta]
    rfl

theorem handleParsed_missing {world : World} (stats : Stats) (hrefusal : refusal request = none)
    (hlookup : lookup files world.openings cacheDir request = .ok none) :
    handleParsed cacheDir world { files, stats } request =
      (Outcome.fetched (orInternalError (fetchFromServer world.net request))).handled
        (keep files world.openings cacheDir request (fetchFromServer world.net request) world.time) stats := by
  unfold handleParsed
  rw [hrefusal]
  dsimp only [Server.updateStats_files]
  rw [hlookup]
  rfl

theorem missing_handled {outcome : Outcome} (hrefusal : refusal request = none)
    (h : (missing request).Runs (FilesExec cacheDir) files outcome files') (cached metadata response : Bool)
    (hlookup : ∀ save saveMetadata,
      lookup files ⟨cached, metadata, response, save, saveMetadata⟩ cacheDir request = .ok none) :
    ∃ world, ∀ stats, handleParsed cacheDir world { files, stats } request = outcome.handled files' stats := by
  obtain ⟨net, save, saveMetadata, time, rfl, hkeep⟩ := missing_alone h
  refine ⟨⟨⟨cached, metadata, response, save, saveMetadata⟩, net, time⟩, fun stats => ?_⟩
  rw [handleParsed_missing stats hrefusal (hlookup save saveMetadata), ← hkeep _ rfl rfl]

theorem lookup_of_not_get {openings : Openings} (hget : request.method ≠ ofString "GET") :
    lookup files openings cacheDir request = .ok none := by
  unfold lookup
  exact if_neg fun h => hget h.1

theorem lookup_of_not_cached {openings : Openings}
    (hcached : isCached files openings.isCached cacheDir (generateCacheKey request) ≠ true) :
    lookup files openings cacheDir request = .ok none := by
  unfold lookup
  exact if_neg fun h => hcached h.2

theorem lookup_of_cached {openings : Openings} (hget : request.method = ofString "GET")
    (hcached : isCached files openings.isCached cacheDir (generateCacheKey request) = true) :
    lookup files openings cacheDir request =
      match getCacheEntry files openings.metadata cacheDir (generateCacheKey request) with
      | none => .error (ofString "stoi")
      | some entry =>
        if entry.statusCode = 200 then .ok (openRead files openings.response entry.filePath)
        else .ok none := by
  unfold lookup
  exact if_pos ⟨hget, hcached⟩

theorem entering_handled {outcome : Outcome} {entry : Option CacheEntry} (hrefusal : refusal request = none)
    (cached metadata : Bool)
    (hlookup : ∀ response save saveMetadata,
      lookup files ⟨cached, metadata, response, save, saveMetadata⟩ cacheDir request =
        match entry with
        | none => .error (ofString "stoi")
        | some entry =>
          if entry.statusCode = 200 then .ok (openRead files response entry.filePath) else .ok none)
    (h : (entering request entry).Runs (FilesExec cacheDir) files outcome files') :
    ∃ world, ∀ stats, handleParsed cacheDir world { files, stats } request = outcome.handled files' stats := by
  cases entry with
  | none =>
    obtain ⟨-, _, rfl, hdone⟩ := Thread.runs_act.mp h
    obtain ⟨rfl, rfl⟩ := Thread.runs_done.mp hdone
    refine ⟨⟨⟨cached, metadata, true, true, true⟩, .giving [], 0⟩, fun stats => ?_⟩
    unfold handleParsed
    rw [hrefusal]
    dsimp only [Server.updateStats_files]
    rw [hlookup]
    rfl
  | some entry =>
    rw [entering] at h
    by_cases hstatus : entry.statusCode = 200
    swap
    · rw [if_neg hstatus] at h
      exact missing_handled hrefusal h cached metadata true fun save saveMetadata =>
        (hlookup true save saveMetadata).trans (if_neg hstatus)
    rw [if_pos hstatus] at h
    obtain ⟨_, _, ⟨rfl, opens, rfl⟩, hopened⟩ := Thread.runs_act.mp h
    split at hopened
    swap
    · next hsome =>
      have hopen := Option.not_isSome_iff_eq_none.mp hsome
      exact missing_handled hrefusal hopened cached metadata opens fun save saveMetadata =>
        (hlookup opens save saveMetadata).trans ((if_pos hstatus).trans (congrArg Except.ok hopen))
    next hsome =>
    obtain ⟨text, hopen⟩ := Option.isSome_iff_exists.mp hsome
    obtain ⟨_, _, ⟨rfl, rfl⟩, hread⟩ := Thread.runs_act.mp hopened
    obtain ⟨-, _, rfl, hdone⟩ := Thread.runs_act.mp hread
    obtain ⟨rfl, rfl⟩ := Thread.runs_done.mp hdone
    refine ⟨⟨⟨cached, metadata, opens, true, true⟩, .giving [], 0⟩, fun stats => ?_⟩
    rw [openRead_eq_some hopen, Option.getD_some]
    unfold handleParsed
    rw [hrefusal]
    dsimp only [Server.updateStats_files]
    rw [hlookup]
    dsimp only
    rw [if_pos hstatus, hopen]
    rfl

/-- **One thread alone**, the other way round: what it comes to is what `handleParsed` gives for some
openings, some origin and some time. -/
theorem handled_of_runs {outcome : Outcome}
    (h : (handleClient request).Runs (FilesExec cacheDir) files outcome files') :
    ∃ world, ∀ stats, handleParsed cacheDir world { files, stats } request = outcome.handled files' stats := by
  unfold handleClient at h
  cases hrefusal : refusal request with
  | some response =>
    rw [hrefusal] at h
    obtain ⟨rfl, rfl⟩ := Thread.runs_done.mp h
    refine ⟨⟨.all, .giving [], 0⟩, fun stats => ?_⟩
    unfold handleParsed
    rw [hrefusal]
    rfl
  | none =>
    rw [hrefusal] at h
    obtain ⟨-, _, rfl, hcounted⟩ := Thread.runs_act.mp h
    by_cases hget : request.method = ofString "GET"
    swap
    · rw [if_neg hget] at hcounted
      exact missing_handled hrefusal hcounted true true true fun _ _ => lookup_of_not_get hget
    rw [if_pos hget] at hcounted
    obtain ⟨_, _, ⟨rfl, opensCached, rfl⟩, hfound⟩ := Thread.runs_act.mp hcounted
    split at hfound
    swap
    · next hcached =>
      exact missing_handled hrefusal hfound opensCached true true fun _ _ => lookup_of_not_cached hcached
    next hcached =>
    obtain ⟨entry, _, ⟨rfl, opensMetadata, hentry⟩, henter⟩ := Thread.runs_act.mp hfound
    exact entering_handled hrefusal opensCached opensMetadata
      (fun _ _ _ => by rw [lookup_of_cached hget hcached, hentry]) henter

/-! ## What else stands in the files -/

theorem lookup_own (h : SameOwn cacheDir request files other) (openings : Openings) :
    lookup files openings cacheDir request = lookup other openings cacheDir request := by
  have hfile : ∀ opens, openRead files opens (getCacheFilePath cacheDir (generateCacheKey request)) =
      openRead other opens (getCacheFilePath cacheDir (generateCacheKey request)) := fun opens => by
    have hsame := h.file
    unfold filePath at hsame
    unfold openRead
    rw [hsame]
  unfold lookup isCached
  dsimp only
  rw [hfile, getCacheEntry_own h]
  split
  · split
    · rfl
    · next hentry => rw [getCacheEntry_filePath hentry, hfile]
  · rfl

theorem keep_own (h : SameOwn cacheDir request files other) (openings : Openings) (response : Bytes)
    (time : Int) :
    SameOwn cacheDir request (keep files openings cacheDir request response time)
      (keep other openings cacheDir request response time) := by
  unfold keep saveToCache
  dsimp only
  split_ifs
  · exact ((h.write _ _).write _ _).write _ _
  · exact (h.write _ _).write _ _
  · exact h
  · exact h

theorem keep_outside (openings : Openings) (response : Bytes) (time : Int) {path : Bytes}
    (hpath : path ∉ ownFiles cacheDir request) :
    keep files openings cacheDir request response time path = files path := by
  unfold keep
  split
  · refine saveToCache_of_ne (fun heq => hpath (heq ▸ List.mem_cons_self)) fun heq => hpath (heq ▸ ?_)
    exact List.mem_cons_of_mem _ List.mem_cons_self
  · rfl

/-- The handling of a request depends on its own files only. -/
theorem handleParsed_own (world : World) (stats : Stats) (h : SameOwn cacheDir request files other) :
    (handleParsed cacheDir world { files, stats } request).response =
        (handleParsed cacheDir world { files := other, stats } request).response ∧
      (handleParsed cacheDir world { files, stats } request).server.stats =
        (handleParsed cacheDir world { files := other, stats } request).server.stats ∧
      SameOwn cacheDir request (handleParsed cacheDir world { files, stats } request).server.files
        (handleParsed cacheDir world { files := other, stats } request).server.files := by
  unfold handleParsed
  split
  · exact ⟨rfl, rfl, h⟩
  · dsimp only [Server.updateStats_files]
    rw [lookup_own h]
    split
    · exact ⟨rfl, rfl, h⟩
    · exact ⟨rfl, rfl, h⟩
    · exact ⟨rfl, rfl, keep_own h _ _ _⟩

theorem handleParsed_outside (world : World) (server : Server) {path : Bytes}
    (hpath : path ∉ ownFiles cacheDir request) :
    (handleParsed cacheDir world server request).server.files path = server.files path := by
  unfold handleParsed
  split
  · rfl
  · dsimp only
    split
    · rfl
    · rfl
    · exact keep_outside _ _ _ hpath

end Apart

/-! ## One after the other -/

section Serial

variable {ι : Type u} {cacheDir : Bytes} {request : ι → ParsedRequest}

/-- The requests one after the other, with the responses to them. -/
def serveAll (cacheDir : Bytes) (world : ι → World) (request : ι → ParsedRequest) :
    List ι → Server → Server × List Bytes
  | [], server => (server, [])
  | i :: order, server =>
    let handled := handleParsed cacheDir (world i) server (request i)
    let rest := serveAll cacheDir world request order handled.server
    (rest.1, handled.response :: rest.2)

def FilesApart (cacheDir : Bytes) (request : ι → ParsedRequest) : Prop :=
  ∀ i j, i ≠ j → DisjointFiles cacheDir (request i) (request j)

theorem FilesApart.not_mem (h : FilesApart cacheDir request) {i j : ι} (hij : i ≠ j) {path : Bytes}
    (hi : path ∈ ownFiles cacheDir (request i)) : path ∉ ownFiles cacheDir (request j) := by
  obtain ⟨hresponse, hleft, hright⟩ := h i j hij
  have hmeta : metaPath (filePath cacheDir (request i)) ≠ metaPath (filePath cacheDir (request j)) :=
    fun heq => hresponse (List.append_cancel_right heq)
  unfold ownFiles at hi ⊢
  simp only [List.mem_cons, List.not_mem_nil, or_false] at hi ⊢
  rcases hi with rfl | rfl
  · exact not_or.mpr ⟨hresponse, hleft⟩
  · exact not_or.mpr ⟨hright.symm, hmeta⟩

theorem tally_counted {μ : Type} [AddCommMonoid μ] {f : Bool → Bool → μ} {tally : Stats → μ}
    (htally : ∀ (server : Server) cacheHit error,
      tally (server.updateStats cacheHit error).stats = tally server.stats + f cacheHit error)
    (outcome : Outcome) (server : Server) :
    tally (outcome.counted server).stats = tally server.stats + outcome.worth f := by
  cases outcome with
  | refused => exact (add_zero _).symm
  | hit | fetched | failed =>
    unfold Outcome.counted Outcome.worth
    rw [htally, htally, add_assoc]

/-- What serving them comes to, when each of them by itself, from `files₀`, comes to `outcome i` with the
files `after i`. -/
structure Serves (cacheDir : Bytes) (request : ι → ParsedRequest) (outcome : ι → Outcome) (after : ι → Files)
    (order : List ι) (server : Server) (served : Server × List Bytes) : Prop where
  responses : served.2 = order.map fun i => (outcome i).response
  outside : ∀ path, (∀ i ∈ order, path ∉ ownFiles cacheDir (request i)) →
    served.1.files path = server.files path
  own : ∀ i ∈ order, SameOwn cacheDir (request i) served.1.files (after i)
  stats : ∀ {μ : Type} [AddCommMonoid μ] (f : Bool → Bool → μ) (tally : Stats → μ),
    (∀ (server : Server) cacheHit error,
      tally (server.updateStats cacheHit error).stats = tally server.stats + f cacheHit error) →
    tally served.1.stats = tally server.stats + (order.map fun i => (outcome i).worth f).sum

theorem serves_serveAll (hapart : FilesApart cacheDir request) {world : ι → World} {outcome : ι → Outcome}
    {after : ι → Files} {files₀ : Files}
    (hworld : ∀ i stats, handleParsed cacheDir (world i) { files := files₀, stats } (request i) =
      (outcome i).handled (after i) stats) (order : List ι) (hnodup : order.Nodup) (server : Server)
    (hsame : ∀ i ∈ order, SameOwn cacheDir (request i) server.files files₀) :
    Serves cacheDir request outcome after order server (serveAll cacheDir world request order server) := by
  induction order generalizing server with
  | nil => exact ⟨rfl, fun _ _ => rfl, fun _ hi => absurd hi List.not_mem_nil, fun _ _ _ => (add_zero _).symm⟩
  | cons i order ih =>
    obtain ⟨hi, hnodup'⟩ := List.nodup_cons.mp hnodup
    obtain ⟨files, stats⟩ := server
    have hown := handleParsed_own (world i) stats (hsame i List.mem_cons_self)
    rw [hworld] at hown
    obtain ⟨hresponse, hstats, hfiles⟩ := hown
    have hne : ∀ {j}, j ∈ order → j ≠ i := fun hj heq => hi (heq ▸ hj)
    have hrest := ih hnodup' (handleParsed cacheDir (world i) ⟨files, stats⟩ (request i)).server
      fun j hj path hpath =>
        (handleParsed_outside _ _ (hapart.not_mem (hne hj) hpath)).trans
          (hsame j (List.mem_cons_of_mem i hj) path hpath)
    refine ⟨?_, fun path hpath => ?_, fun j hj => ?_, fun f tally htally => ?_⟩
    · exact congrArg₂ List.cons hresponse hrest.responses
    · refine (hrest.outside path fun j hj => hpath j (List.mem_cons_of_mem i hj)).trans ?_
      exact handleParsed_outside _ _ (hpath i List.mem_cons_self)
    · rcases List.mem_cons.mp hj with rfl | hj
      · intro path hpath
        refine (hrest.outside path fun k hk => hapart.not_mem (hne hk).symm hpath).trans (hfiles path hpath)
      · exact hrest.own j hj
    · refine (hrest.stats f tally htally).trans ?_
      rw [hstats, List.map_cons, List.sum_cons, ← add_assoc]
      exact congrArg (· + _) (tally_counted htally (outcome i) ⟨after i, stats⟩)

end Serial

/-! ## All at once -/

section Together

variable {ι : Type u} [DecidableEq ι] {cacheDir : Bytes} {request : ι → ParsedRequest} {files₀ : Files}
  {s : Threads ι Shared Action Action.Result Outcome}

omit [DecidableEq ι] in
theorem threads_apart (hapart : FilesApart cacheDir request) :
    Threads.Apart (fun i => handleClient (request i)) (FilesExec cacheDir)
      (fun i => Action.Mine cacheDir (request i)) fun i => SameOwn cacheDir (request i) where
  takes _ := takes_handleClient
  refl _ _ _ _ := rfl
  frame hne hmine hexec hsame path hpath :=
    (hexec.outside hmine (hapart.not_mem hne hpath)).trans (hsame path hpath)
  own hmine hexec hsame := hexec.own hmine hsame

/-- What the threads do to the files alone. -/
def filesOnly (cacheDir : Bytes) (files : Files) (request : ι → ParsedRequest) :
    System (Threads ι Files Action Action.Result Outcome) :=
  Threads.interleaving (fun i => handleClient (request i)) (fun g => g = files) (FilesExec cacheDir)

def onFiles (s : Threads ι Shared Action Action.Result Outcome) :
    Threads ι Files Action Action.Result Outcome :=
  { shared := s.shared.server.files, thread := s.thread }

theorem onFiles_reachable (h : (servingFrom cacheDir files₀ request).Reachable s) :
    (filesOnly cacheDir files₀ request).Reachable (onFiles s) := by
  apply System.Reachable.simulated (T := filesOnly cacheDir files₀ request) onFiles _ _ h
  · rintro s ⟨⟨-, hfiles⟩, hthread⟩
    exact ⟨hfiles, hthread⟩
  · rintro s _ - ⟨i, a, next, r, shared, hi, hexec, rfl⟩
    exact System.Leads.of_step ⟨i, a, next, r, shared.server.files, hi, hexec.files, rfl⟩

theorem Stats.eq_of {a b : Stats} (htotal : a.totalRequests = b.totalRequests)
    (hhits : a.cacheHits = b.cacheHits) (hmisses : a.cacheMisses = b.cacheMisses)
    (herrors : a.errors = b.errors) : a = b := by
  obtain ⟨_, _, _, _⟩ := a
  obtain ⟨_, _, _, _⟩ := b
  cases htotal
  cases hhits
  cases hmisses
  cases herrors
  rfl

theorem sum_order [Fintype ι] {μ : Type} [AddCommMonoid μ] (g : ι → μ) {order : List ι} (hnodup : order.Nodup)
    (hall : ∀ i, i ∈ order) : (order.map g).sum = ∑ i, g i := by
  have huniv : order.toFinset = Finset.univ :=
    Finset.eq_univ_iff_forall.mpr fun i => List.mem_toFinset.mpr (hall i)
  rw [← huniv, List.sum_toFinset g hnodup]

/-- **One after the other.** Requests of which none has a cache file of another are handled at once. Then there
are openings, origins and times for each of them with which the server, had it handled them one after the
other, in any order, would have given the same responses, and would have come to the same statistics and the
same files. -/
theorem requests_serializable [Fintype ι] {outcome : ι → Outcome} (hapart : FilesApart cacheDir request)
    (h : (servingFrom cacheDir files₀ request).Reachable s) (hdone : ∀ i, s.thread i = .done (outcome i)) :
    ∃ world : ι → World, ∀ order : List ι, order.Nodup → (∀ i, i ∈ order) →
      serveAll cacheDir world request order { files := files₀, stats := Stats.zero } =
        (s.shared.server, order.map fun i => (outcome i).response) := by
  obtain ⟨files, hfiles, hstanding⟩ :=
    Threads.standing_of_reachable (threads_apart hapart) (onFiles_reachable h)
  have halone : ∀ i, ∃ world after, SameOwn cacheDir (request i) s.shared.server.files after ∧
      ∀ stats, handleParsed cacheDir world { files := files₀, stats } (request i) =
        (outcome i).handled after stats := fun i => by
    obtain ⟨after, hruns, hsame⟩ := hstanding.runs (hdone i)
    obtain ⟨world, hworld⟩ := handled_of_runs hruns
    exact ⟨world, after, hsame, hfiles ▸ hworld⟩
  choose world after hsame hworld using halone
  refine ⟨world, fun order hnodup hall => ?_⟩
  have hserves := serves_serveAll hapart hworld order hnodup { files := files₀, stats := Stats.zero }
    fun _ _ _ _ => rfl
  have htally : ∀ (f : Bool → Bool → Nat) (tally : Stats → Nat),
      (∀ (server : Server) cacheHit error,
        tally (server.updateStats cacheHit error).stats = tally server.stats + f cacheHit error) →
      tally Stats.zero = 0 →
      tally (serveAll cacheDir world request order { files := files₀, stats := Stats.zero }).1.stats =
        tally s.shared.server.stats := fun f tally htally hzero => by
    rw [hserves.stats f tally htally, hzero, zero_add, sum_order _ hnodup hall]
    exact (Threads.tally_of_done (fun g => tally g.server.stats) (exec_tally f htally)
      (fun i => handleClient_spends f (request i)) (fun g hg => by rw [hg.1.1, hzero]) h hdone).symm
  have hstats : (serveAll cacheDir world request order { files := files₀, stats := Stats.zero }).1.stats =
      s.shared.server.stats :=
    Stats.eq_of (htally (fun _ _ => 1) Stats.totalRequests (fun _ _ _ => rfl) rfl)
      (htally (fun cacheHit _ => if cacheHit then 1 else 0) Stats.cacheHits (fun _ _ _ => rfl) rfl)
      (htally (fun cacheHit _ => if cacheHit then 0 else 1) Stats.cacheMisses (fun _ _ _ => rfl) rfl)
      (htally (fun _ error => if error then 1 else 0) Stats.errors (fun _ _ _ => rfl) rfl)
  have hsamefiles : (serveAll cacheDir world request order { files := files₀, stats := Stats.zero }).1.files =
      s.shared.server.files := by
    funext path
    by_cases hpath : ∃ i, path ∈ ownFiles cacheDir (request i)
    · obtain ⟨i, hi⟩ := hpath
      exact (hserves.own i (hall i) path hi).trans (hsame i path hi).symm
    · have hnone : ∀ i, path ∉ ownFiles cacheDir (request i) := fun i hi => hpath ⟨i, hi⟩
      have hkept := hstanding.kept (fun g => g path = files₀ path) (by rw [hfiles])
        fun i _ _ _ _ hmine hexec hg => (hexec.outside hmine (hnone i)).trans hg
      exact (hserves.outside path fun i _ => hnone i).trans hkept.symm
  refine Prod.ext ?_ hserves.responses
  calc (serveAll cacheDir world request order { files := files₀, stats := Stats.zero }).1
      = ⟨s.shared.server.files, s.shared.server.stats⟩ := by rw [← hsamefiles, ← hstats]
    _ = s.shared.server := rfl

end Together

/-- Two pages of one host. -/
def twoPages (i : Fin 2) : ParsedRequest :=
  { ParsedRequest.default with
    method := ofString "GET", host := ofString "h", path := if i = 0 then ofString "/p" else ofString "/q" }

theorem twoPages_apart : FilesApart (ofString "./cache") twoPages := by
  have hpages : DisjointFiles (ofString "./cache") (twoPages 0) (twoPages 1) := by decide +kernel
  intro i j hij
  match i, j with
  | 0, 0 => exact absurd rfl hij
  | 0, 1 => exact hpages
  | 1, 0 => exact ⟨hpages.response.symm, hpages.right, hpages.left⟩
  | 1, 1 => exact absurd rfl hij

theorem requests_serializable_twoPages : ∃ s, ∃ outcome : Fin 2 → Outcome,
    (servingFrom (ofString "./cache") (fun _ => none) twoPages).Reachable s ∧
      ∃ world : Fin 2 → World, ∀ order : List (Fin 2), order.Nodup → (∀ i, i ∈ order) →
        serveAll (ofString "./cache") world twoPages order { files := fun _ => none, stats := Stats.zero } =
          (s.shared.server, order.map fun i => (outcome i).response) := by
  let s₀ : Threads (Fin 2) Shared Action Action.Result Outcome :=
    { shared := ⟨⟨fun _ => none, Stats.zero⟩, false⟩, thread := fun i => handleClient (twoPages i) }
  have h0 : (servingFrom (ofString "./cache") (fun _ => none) twoPages).Reachable s₀ :=
    .init ⟨⟨⟨rfl, rfl⟩, rfl⟩, rfl⟩
  obtain ⟨first, hfirst, -, -⟩ := handleClient_runs (ofString "./cache") ⟨.all, .giving [], 0⟩
    ⟨fun _ => none, Stats.zero⟩ (twoPages 0)
  have hleads : (servingFrom (ofString "./cache") (fun _ => none) twoPages).Leads s₀ _ :=
    Threads.leads_of_runs hfirst s₀ (i := 0) rfl rfl
  obtain ⟨second, hsecond, -, -⟩ := handleClient_runs (ofString "./cache") ⟨.all, .giving [], 0⟩
    (handleParsed (ofString "./cache") ⟨.all, .giving [], 0⟩ ⟨fun _ => none, Stats.zero⟩ (twoPages 0)).server
    (twoPages 1)
  have hleads' : (servingFrom (ofString "./cache") (fun _ => none) twoPages).Leads _ _ :=
    Threads.leads_of_runs hsecond (s₀.go 0 _ (.done first)) (i := 1) (s₀.go_of_ne (by decide) _ _) rfl
  have hreach := (h0.leads hleads).leads hleads'
  refine ⟨_, fun i => if i = 0 then first else second, hreach,
    requests_serializable twoPages_apart hreach fun i => ?_⟩
  match i with
  | 0 =>
    refine (Threads.go_of_ne _ (by decide) _ _).trans ?_
    exact Threads.go_self _ _ _ _
  | 1 => exact Threads.go_self _ _ _ _

end Proxy
