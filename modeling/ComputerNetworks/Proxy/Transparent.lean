import ComputerNetworks.Lib.Memo
import ComputerNetworks.Proxy.Handle

/-!
# The cache as a table

Handled one after another, `GET` requests see a table of first good responses: the files stand for
it.
-/

open Lib Lib.Bytes Lib.Memo Lib.Number

namespace Proxy

/-! ## Runs -/

structure Visit where
  request : ParsedRequest
  world : World

/-- What the key of a request is made of. -/
def resource (request : ParsedRequest) : Bytes × Int × Bytes :=
  (request.host, request.port, request.path)

/-- What the origin answers, or the proxy in its place. -/
def Visit.answer (v : Visit) : Bytes := fetchFromServer v.world.net v.request

def Visit.handle (cacheDir : Bytes) (server : Server) (v : Visit) : Handled :=
  handleParsed cacheDir v.world server v.request

def after (cacheDir : Bytes) (server : Server) (visits : List Visit) : Server :=
  visits.foldl (fun server v => (v.handle cacheDir server).server) server

/-- The table that the cache is for. -/
def responses : Calls Visit (Bytes × Int × Bytes) Bytes where
  key v := resource v.request
  fresh := Visit.answer
  keep response := shouldCache (extractStatusCode response)

/-! ## What is on disk -/

/-- The files of a key from which nothing, or one response, is known. -/
def Kept (files : Files) (filePath : Bytes) : Option Bytes → Prop
  | none => files filePath = none ∧ files (metaPath filePath) = none
  | some response =>
    response ≠ [] ∧ files filePath = some response ∧
      ∃ time, files (metaPath filePath) = some (metadata 200 time)

def responsePath (cacheDir : Bytes) (request : ParsedRequest) : Bytes :=
  getCacheFilePath cacheDir (generateCacheKey request)

/-- The files stand for the table, at the keys of some visits. -/
def StandsFor (cacheDir : Bytes) (visits : List Visit) (table : Bytes × Int × Bytes → Option Bytes)
    (server : Server) : Prop :=
  ∀ v ∈ visits, v.request.host ≠ [] →
    Kept server.files (responsePath cacheDir v.request) (table (resource v.request))

theorem responsePath_of_resource {cacheDir : Bytes} {r r' : ParsedRequest}
    (h : resource r = resource r') : responsePath cacheDir r = responsePath cacheDir r' := by
  simp only [resource, Prod.mk.injEq] at h
  obtain ⟨hhost, hport, hpath⟩ := h
  rw [responsePath, responsePath, generateCacheKey, generateCacheKey, hhost, hport, hpath]

theorem Kept.congr {files files' : Files} {filePath : Bytes} {known : Option Bytes}
    (h : Kept files filePath known) (hfile : files' filePath = files filePath)
    (hmeta : files' (metaPath filePath) = files (metaPath filePath)) :
    Kept files' filePath known := by
  cases known with
  | none => exact ⟨hfile.trans h.1, hmeta.trans h.2⟩
  | some response =>
    obtain ⟨hne, hresponse, time, htime⟩ := h
    exact ⟨hne, hfile.trans hresponse, time, hmeta.trans htime⟩

theorem kept_saveToCache (files : Files) (cacheDir cacheKey : Bytes) {response : Bytes}
    (hne : response ≠ []) (time : Int) :
    Kept (saveToCache files .all cacheDir cacheKey response 200 time)
      (getCacheFilePath cacheDir cacheKey) (some response) := by
  have hpath := metaPath_ne (getCacheFilePath cacheDir cacheKey)
  rw [saveToCache_all]
  refine ⟨hne, ?_, time, Files.write_self _ _ _⟩
  rw [Files.write_of_ne _ (Ne.symm hpath), Files.write_self]

theorem saveToCache_apart {files : Files} {openings : Openings} {cacheDir cacheKey response : Bytes}
    {statusCode time : Int} {filePath : Bytes} {known : Option Bytes}
    (hapart : Apart filePath (getCacheFilePath cacheDir cacheKey)) (h : Kept files filePath known) :
    Kept (saveToCache files openings cacheDir cacheKey response statusCode time) filePath known := by
  apply h.congr
  · exact saveToCache_of_ne hapart.response hapart.left
  · refine saveToCache_of_ne (Ne.symm hapart.right) fun heq => hapart.response ?_
    exact List.append_cancel_right heq

/-! ## One visit -/

/-- A `GET` for which every file can be opened. -/
structure Visit.Plain (v : Visit) : Prop where
  method : v.request.method = ofString "GET"
  openings : v.world.openings = .all

theorem Visit.Plain.refusal {v : Visit} (h : v.Plain) (hhost : v.request.host ≠ []) :
    Proxy.refusal v.request = none := by
  rw [refusal_eq_none_iff, h.method]
  exact ⟨by decide, by decide, hhost⟩

theorem handle_hostless (cacheDir : Bytes) (server : Server) {v : Visit}
    (hhost : v.request.host = []) : (v.handle cacheDir server).server = server := by
  have hrefusal : refusal v.request ≠ none := by
    rw [ne_eq, refusal_eq_none_iff]
    exact fun h => h.2.2 hhost
  obtain ⟨response, hresponse⟩ := Option.ne_none_iff_exists'.mp hrefusal
  rw [Visit.handle, handleParsed, hresponse]

theorem handle_kept {cacheDir : Bytes} {server : Server} {v : Visit} (hv : v.Plain)
    (hhost : v.request.host ≠ []) {response : Bytes}
    (h : Kept server.files (responsePath cacheDir v.request) (some response)) :
    (v.handle cacheDir server).fetched = false ∧ (v.handle cacheDir server).response = response ∧
      (v.handle cacheDir server).server.files = server.files := by
  obtain ⟨hne, hfile, time, htime⟩ := h
  have hlookup : lookup server.files .all cacheDir v.request = .ok (some response) := by
    have hcached : isCached server.files true cacheDir (generateCacheKey v.request) = true := by
      rw [isCached, openRead, if_pos rfl, ← responsePath, hfile]
      rfl
    rw [lookup, if_pos ⟨hv.method, hcached⟩, show Openings.all.metadata = true from rfl,
      getCacheEntry_metadata (by decide) htime]
    dsimp only
    rw [if_pos rfl]
    exact congrArg Except.ok hfile
  have hhandle : v.handle cacheDir server =
      { server := (server.updateStats false false).updateStats true false
        response := orInternalError response
        fetched := false } := by
    rw [Visit.handle, handleParsed, hv.refusal hhost]
    dsimp only
    rw [Server.updateStats_files, hv.openings, hlookup]
  rw [hhandle]
  exact ⟨rfl, if_neg hne, rfl⟩

theorem handle_fresh {cacheDir : Bytes} {server : Server} {v : Visit} (hv : v.Plain)
    (hhost : v.request.host ≠ [])
    (h : Kept server.files (responsePath cacheDir v.request) none) :
    (v.handle cacheDir server).fetched = true ∧ (v.handle cacheDir server).response = v.answer ∧
      (v.handle cacheDir server).server.files =
        keep server.files .all cacheDir v.request v.answer v.world.time := by
  have hlookup : lookup server.files .all cacheDir v.request = .ok none := by
    refine if_neg fun hcached => ?_
    have hcached := hcached.2
    rw [isCached, openRead, ← responsePath, h.1] at hcached
    cases hcached
  have hhandle : v.handle cacheDir server =
      { server :=
          { (server.updateStats false false).updateStats false false with
            files := keep server.files .all cacheDir v.request v.answer v.world.time }
        response := orInternalError v.answer
        fetched := true } := by
    rw [Visit.handle, handleParsed, hv.refusal hhost]
    dsimp only
    rw [Server.updateStats_files, hv.openings, hlookup]
    rfl
  rw [hhandle]
  exact ⟨rfl, if_neg (fetchFromServer_ne_nil _ _), rfl⟩

/-! ## Runs stand for the table -/

def AllApart (cacheDir : Bytes) (visits : List Visit) : Prop :=
  ∀ v ∈ visits, ∀ v' ∈ visits, resource v.request ≠ resource v'.request →
    DisjointFiles cacheDir v.request v'.request

theorem standsFor_step {cacheDir : Bytes} {visits : List Visit} (hapart : AllApart cacheDir visits)
    {table : Bytes × Int × Bytes → Option Bytes} {server : Server} {v : Visit} (hmem : v ∈ visits)
    (hv : v.Plain) (h : StandsFor cacheDir visits table server) :
    StandsFor cacheDir visits (responses.serve table v) (v.handle cacheDir server).server := by
  by_cases hhost : v.request.host = []
  · -- The table may change, but at no key that stands for files.
    rw [handle_hostless cacheDir server hhost]
    intro w hw hwhost
    have hother : resource v.request ≠ resource w.request :=
      fun heq => hwhost ((congrArg Prod.fst heq).symm.trans hhost)
    have hsettles : responses.settles (resource w.request) v = false := by
      rw [Calls.settles, show decide (responses.key v = resource w.request) = false from
        decide_eq_false hother, Bool.false_and]
    rw [Calls.serve_apply, hsettles, if_neg (by decide), Option.or_none]
    exact h w hw hwhost
  have hkept := h v hmem hhost
  cases htable : table (resource v.request) with
  | some response =>
    rw [htable] at hkept
    obtain ⟨-, -, hfiles⟩ := handle_kept hv hhost hkept
    rw [Calls.serve_of_some (v := response) htable]
    intro w hw hwhost
    rw [hfiles]
    exact h w hw hwhost
  | none =>
    rw [htable] at hkept
    obtain ⟨-, -, hfiles⟩ := handle_fresh hv hhost hkept
    rw [Calls.serve_of_none htable]
    by_cases hstatus : extractStatusCode v.answer = 200
    · have hkeep : responses.keep (responses.fresh v) = true := decide_eq_true hstatus
      rw [if_pos hkeep]
      rw [keep_of_status hstatus] at hfiles
      intro w hw hwhost
      rw [hfiles]
      by_cases hsame : resource w.request = resource v.request
      · rw [hsame, responsePath_of_resource hsame]
        rw [show resource v.request = responses.key v from rfl, Function.update_self]
        exact kept_saveToCache _ _ _ (fetchFromServer_ne_nil _ _) _
      · rw [Function.update_of_ne (show resource w.request ≠ responses.key v from hsame)]
        exact saveToCache_apart (hapart w hw v hmem hsame) (h w hw hwhost)
    · have hkeep : ¬responses.keep (responses.fresh v) = true :=
        fun hk => hstatus (of_decide_eq_true hk)
      rw [if_neg hkeep]
      rw [keep_of_not_status hstatus] at hfiles
      intro w hw hwhost
      rw [hfiles]
      exact h w hw hwhost

theorem standsFor_empty {cacheDir : Bytes} (visits : List Visit) {server : Server}
    (hempty : ∀ name, server.files (cacheDir ++ slash :: name) = none) :
    StandsFor cacheDir visits (fun _ => none) server := by
  intro v _ _
  refine ⟨hempty _, ?_⟩
  rw [responsePath, metaPath_getCacheFilePath]
  exact hempty _

/-- **The cache is transparent.** Behind any visits, the first good response to a resource answers
every later request for it, and without one the origin is asked and nothing is on disk. -/
theorem cache_transparent (cacheDir : Bytes) (server : Server) (visits : List Visit) (v : Visit)
    (hempty : ∀ name, server.files (cacheDir ++ slash :: name) = none)
    (hmethod : ∀ w ∈ visits ++ [v], w.request.method = ofString "GET")
    (hopenings : ∀ w ∈ visits ++ [v], w.world.openings = .all)
    (hapart : ∀ w ∈ visits ++ [v], ∀ w' ∈ visits ++ [v],
      resource w.request ≠ resource w'.request → DisjointFiles cacheDir w.request w'.request)
    (hhost : v.request.host ≠ []) :
    let before := after cacheDir server visits
    let handled := v.handle cacheDir before
    match visits.find? fun w =>
      decide (resource w.request = resource v.request ∧ extractStatusCode w.answer = 200) with
    | some first =>
      handled.fetched = false ∧ handled.response = first.answer ∧
        handled.server.files = before.files
    | none =>
      handled.fetched = true ∧ handled.response = v.answer ∧
        before.files (responsePath cacheDir v.request) = none ∧
        before.files (metaPath (responsePath cacheDir v.request)) = none ∧
        (extractStatusCode v.answer ≠ 200 → handled.server.files = before.files) := by
  intro before handled
  have hplain : ∀ w ∈ visits ++ [v], w.Plain := fun w hw => ⟨hmethod w hw, hopenings w hw⟩
  have hlast : v ∈ visits ++ [v] := List.mem_append_right visits (List.mem_singleton.mpr rfl)
  have hruns : StandsFor cacheDir (visits ++ [v]) (visits.foldl responses.serve fun _ => none) before :=
    Calls.simulates (P := fun w => w ∈ visits ++ [v])
      (fun table s w hw h => standsFor_step hapart hw (hplain w hw) h) visits
      (fun w hw => List.mem_append_left [v] hw) (standsFor_empty _ hempty)
  have hkept := hruns v hlast hhost
  have hsettles : (fun w : Visit =>
      decide (resource w.request = resource v.request ∧ extractStatusCode w.answer = 200)) =
      fun w => responses.settles (resource v.request) w := by
    funext w
    exact Bool.decide_and _ _
  rw [Calls.serveAll_apply, Option.none_or] at hkept
  rw [hsettles]
  cases hfirst : visits.find? fun w => responses.settles (resource v.request) w with
  | some first =>
    rw [hfirst] at hkept
    exact handle_kept (hplain v hlast) hhost hkept
  | none =>
    rw [hfirst] at hkept
    obtain ⟨hfetched, hresponse, hfiles⟩ := handle_fresh (hplain v hlast) hhost hkept
    refine ⟨hfetched, hresponse, hkept.1, hkept.2, fun hstatus => ?_⟩
    rw [hfiles, keep_of_not_status hstatus]

/-- A page that is asked for again, behind another one, when the origin is down. -/
theorem page_asked_again :
    let ask (rawRequest response : String) : Visit :=
      { request := parseRequest (ofString rawRequest)
        world :=
          { openings := .all, net := .giving [.data (ofString response), .data []], time := 0 } }
    let server : Server := { files := fun _ => none, stats := ⟨0, 0, 0, 0⟩ }
    let visits :=
      [ask "GET http://h/a HTTP/1.1\r\n\r\n" "HTTP/1.1 200 OK\r\n\r\nA",
       ask "GET http://h/b HTTP/1.1\r\n\r\n" "HTTP/1.1 200 OK\r\n\r\nB"]
    let v := ask "GET http://h/a HTTP/1.1\r\n\r\n" "HTTP/1.1 503 Service Unavailable\r\n\r\n"
    let before := after (ofString "./cache") server visits
    let handled := v.handle (ofString "./cache") before
    handled.fetched = false ∧ handled.response = ofString "HTTP/1.1 200 OK\r\n\r\nA" ∧
      handled.server.files = before.files := by
  intro ask server visits v
  have hmethod : ∀ w ∈ visits ++ [v], w.request.method = ofString "GET" := by
    simp only [visits, v, List.cons_append, List.nil_append, List.forall_mem_cons]
    exact ⟨by decide, by decide, by decide, by simp⟩
  have hopenings : ∀ w ∈ visits ++ [v], w.world.openings = .all := by
    simp only [visits, v, List.cons_append, List.nil_append, List.forall_mem_cons]
    exact ⟨rfl, rfl, rfl, by simp⟩
  have hapart : ∀ w ∈ visits ++ [v], ∀ w' ∈ visits ++ [v],
      resource w.request ≠ resource w'.request →
        DisjointFiles (ofString "./cache") w.request w'.request := by
    decide
  exact cache_transparent (ofString "./cache") server visits v (fun _ => rfl) hmethod hopenings
    hapart (by decide)

end Proxy
