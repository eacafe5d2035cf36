import ComputerNetworks.Proxy.Cache
import ComputerNetworks.Proxy.Origin

/-!
# Handling a request

`handleClient`, from the parsed request on: what is refused, what the cache answers, what is fetched
and what is then kept.
-/

open Lib Lib.Bytes Lib.Number

namespace Proxy

structure Stats where
  totalRequests : Nat
  cacheHits : Nat
  cacheMisses : Nat
  errors : Nat
  deriving DecidableEq

structure Server where
  files : Files
  stats : Stats

def Server.updateStats (server : Server) (cacheHit error : Bool) : Server :=
  { server with
    stats :=
      { totalRequests := server.stats.totalRequests + 1
        cacheHits := server.stats.cacheHits + if cacheHit then 1 else 0
        cacheMisses := server.stats.cacheMisses + if cacheHit then 0 else 1
        errors := server.stats.errors + if error then 1 else 0 } }

@[simp] theorem Server.updateStats_files (server : Server) (cacheHit error : Bool) :
    (server.updateStats cacheHit error).files = server.files := rfl

/-- What the handling of one request finds outside the proxy. -/
structure World where
  openings : Openings
  net : Net
  time : Int

/-- `fetched` says whether `fetchFromServer` was called. -/
structure Handled where
  server : Server
  response : Bytes
  fetched : Bool

/-! ## The model -/

/-- The responses to requests that go no further. -/
def refusal (request : ParsedRequest) : Option Bytes :=
  if request.method = [] then
    some (createErrorResponse 400 (ofString "Bad Request") (ofString "Failed to parse request"))
  else if request.method = ofString "CONNECT" then
    some (createErrorResponse 501 (ofString "Not Implemented")
      (ofString "HTTPS tunneling (CONNECT) is not supported"))
  else if request.host = [] then
    some (createErrorResponse 400 (ofString "Bad Request") (ofString "Host header is missing"))
  else none

/-- The response of a cache hit, or the text of an exception. -/
def lookup (files : Files) (openings : Openings) (cacheDir : Bytes) (request : ParsedRequest) :
    Except Bytes (Option Bytes) :=
  let cacheKey := generateCacheKey request
  if request.method = ofString "GET" ∧ isCached files openings.isCached cacheDir cacheKey = true then
    match getCacheEntry files openings.metadata cacheDir cacheKey with
    | none => .error (ofString "stoi")
    | some entry =>
      if entry.statusCode = 200 then .ok (openRead files openings.response entry.filePath)
      else .ok none
  else .ok none

def orInternalError (response : Bytes) : Bytes :=
  if response = [] then
    createErrorResponse 500 (ofString "Internal Server Error") (ofString "Proxy server error")
  else response

def keep (files : Files) (openings : Openings) (cacheDir : Bytes) (request : ParsedRequest)
    (response : Bytes) (time : Int) : Files :=
  if response ≠ [] ∧ shouldCache (extractStatusCode response) = true then
    saveToCache files openings cacheDir (generateCacheKey request) response
      (extractStatusCode response) time
  else files

/-- `handleClient`, once `request` is parsed. -/
def handleParsed (cacheDir : Bytes) (world : World) (server : Server) (request : ParsedRequest) :
    Handled :=
  match refusal request with
  | some response => { server, response, fetched := false }
  | none =>
    let server := server.updateStats false false
    match lookup server.files world.openings cacheDir request with
    | .error what =>
      { server := server.updateStats false true
        response := createErrorResponse 500 (ofString "Internal Server Error")
          (ofString "Proxy server error: " ++ what)
        fetched := false }
    | .ok (some response) =>
      { server := server.updateStats true false
        response := orInternalError response
        fetched := false }
    | .ok none =>
      let server := server.updateStats false false
      let response := fetchFromServer world.net request
      { server :=
          { server with
            files := keep server.files world.openings cacheDir request response world.time }
        response := orInternalError response
        fetched := true }

/-! ## What is refused and what is found -/

theorem refusal_eq_none_iff (request : ParsedRequest) :
    refusal request = none ↔
      request.method ≠ [] ∧ request.method ≠ ofString "CONNECT" ∧ request.host ≠ [] := by
  unfold refusal
  split_ifs <;> simp [*]

/-- A `GET` that ends at the cache: there is a response file, and the metadata throw or have the
status 200, with the response file opened again. -/
def EndsAtCache (files : Files) (openings : Openings) (cacheDir : Bytes) (request : ParsedRequest) :
    Prop :=
  request.method = ofString "GET" ∧
    isCached files openings.isCached cacheDir (generateCacheKey request) = true ∧
    ∀ entry, getCacheEntry files openings.metadata cacheDir (generateCacheKey request) = some entry →
      entry.statusCode = 200 ∧ (openRead files openings.response entry.filePath).isSome = true

theorem lookup_eq_none_iff (files : Files) (openings : Openings) (cacheDir : Bytes)
    (request : ParsedRequest) :
    lookup files openings cacheDir request = .ok none ↔
      ¬EndsAtCache files openings cacheDir request := by
  unfold lookup EndsAtCache
  dsimp only
  by_cases hcached : request.method = ofString "GET" ∧
      isCached files openings.isCached cacheDir (generateCacheKey request) = true
  · rw [if_pos hcached]
    cases hentry : getCacheEntry files openings.metadata cacheDir (generateCacheKey request) with
    | none => simp [hcached]
    | some entry =>
      by_cases hstatus : entry.statusCode = 200
      · cases hopen : openRead files openings.response entry.filePath <;>
          simp [hcached, hstatus, hopen]
      · simp [hstatus]
  · rw [if_neg hcached]
    simp only [true_iff]
    exact fun h => hcached ⟨h.1, h.2.1⟩

theorem endsAtCache_of_lookup {files : Files} {openings : Openings} {cacheDir : Bytes}
    {request : ParsedRequest} (h : lookup files openings cacheDir request ≠ .ok none) :
    EndsAtCache files openings cacheDir request := by
  by_contra hends
  exact h ((lookup_eq_none_iff files openings cacheDir request).mpr hends)

/-! ## What is kept -/

theorem keep_of_status {files : Files} {openings : Openings} {cacheDir : Bytes}
    {request : ParsedRequest} {response : Bytes} {time : Int}
    (h : extractStatusCode response = 200) :
    keep files openings cacheDir request response time =
      saveToCache files openings cacheDir (generateCacheKey request) response 200 time := by
  have hne : response ≠ [] := by
    rintro rfl
    cases h
  rw [keep, h, if_pos ⟨hne, rfl⟩]

theorem keep_of_not_status {files : Files} {openings : Openings} {cacheDir : Bytes}
    {request : ParsedRequest} {response : Bytes} {time : Int}
    (h : extractStatusCode response ≠ 200) :
    keep files openings cacheDir request response time = files := by
  rw [keep, if_neg]
  exact fun hkeep => h (of_decide_eq_true hkeep.2)

/-- The files have this response already, with these metadata as far as they would be written. -/
def Holds (files : Files) (openings : Openings) (cacheDir : Bytes) (request : ParsedRequest)
    (response : Bytes) (time : Int) : Prop :=
  files (getCacheFilePath cacheDir (generateCacheKey request)) = some response ∧
    (openings.saveMetadata = true →
      files (metaPath (getCacheFilePath cacheDir (generateCacheKey request))) =
        some (metadata 200 time))

/-- **What changes the files.** Handling a request leaves them as they are exactly when it is refused,
when it ends at the cache, when the response has another status than 200, when the response file
cannot be opened, or when the files have all of this already. -/
theorem handleParsed_files_iff (cacheDir : Bytes) (world : World) (server : Server)
    (request : ParsedRequest) :
    (handleParsed cacheDir world server request).server.files = server.files ↔
      refusal request ≠ none ∨ EndsAtCache server.files world.openings cacheDir request ∨
        extractStatusCode (fetchFromServer world.net request) ≠ 200 ∨
        world.openings.save = false ∨
        Holds server.files world.openings cacheDir request (fetchFromServer world.net request)
          world.time := by
  unfold handleParsed
  cases hrefusal : refusal request with
  | some response => simp
  | none =>
    dsimp only
    rw [Server.updateStats_files]
    cases hl : lookup server.files world.openings cacheDir request with
    | error what =>
      have hends := endsAtCache_of_lookup (hl.trans_ne (by simp))
      simp [hends]
    | ok found =>
      cases found with
      | some response =>
        have hends := endsAtCache_of_lookup (hl.trans_ne (by simp))
        simp [hends]
      | none =>
        have hends := (lookup_eq_none_iff server.files world.openings cacheDir request).mp hl
        dsimp only [Server.updateStats_files]
        by_cases hstatus : extractStatusCode (fetchFromServer world.net request) = 200
        · rw [keep_of_status hstatus, saveToCache_eq_iff]
          simp [hends, hstatus, Holds]
        · rw [keep_of_not_status hstatus]
          simp [hstatus]

end Proxy
