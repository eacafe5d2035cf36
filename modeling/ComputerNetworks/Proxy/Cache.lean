import ComputerNetworks.Proxy.Names

/-!
# The cache on disk

`isCached`, `getCacheEntry` and `saveToCache` over a map from paths to the contents of files.
-/

open Lib Lib.Bytes Lib.Crlf Lib.Number

namespace Proxy

/-! ## Files -/

abbrev Files := Bytes → Option Bytes

/-- What a stream that is opened on `path` has to read. `opens` says that nothing but the file's
absence keeps the opening from success. -/
def openRead (files : Files) (opens : Bool) (path : Bytes) : Option Bytes :=
  if opens then files path else none

def Files.write (files : Files) (path contents : Bytes) : Files :=
  fun p => if p = path then some contents else files p

@[simp] theorem Files.write_self (files : Files) (path contents : Bytes) :
    files.write path contents path = some contents := if_pos rfl

theorem Files.write_of_ne (files : Files) {path p : Bytes} (h : p ≠ path) (contents : Bytes) :
    files.write path contents p = files p := if_neg h

@[simp] theorem Files.write_write (files : Files) (path contents contents' : Bytes) :
    (files.write path contents).write path contents' = files.write path contents' := by
  funext p
  unfold Files.write
  split <;> rfl

theorem Files.write_eq_iff (files : Files) (path contents : Bytes) :
    files.write path contents = files ↔ files path = some contents := by
  refine ⟨fun h => by rw [← h, write_self], fun h => ?_⟩
  funext p
  unfold Files.write
  split
  · rename_i hp
    rw [hp, h]
  · rfl

/-! ## The operations -/

/-- Whether the openings of files in the handling of one request succeed, but for a file's absence. -/
structure Openings where
  isCached : Bool
  metadata : Bool
  response : Bool
  save : Bool
  saveMetadata : Bool
  deriving DecidableEq

def Openings.all : Openings :=
  { isCached := true, metadata := true, response := true, save := true, saveMetadata := true }

structure CacheEntry where
  filePath : Bytes
  lastModified : Bytes
  statusCode : Int
  deriving DecidableEq

def isCached (files : Files) (opens : Bool) (cacheDir cacheKey : Bytes) : Bool :=
  (openRead files opens (getCacheFilePath cacheDir cacheKey)).isSome

/-- There is no entry when the status is no number: `std::stoi` throws. -/
def getCacheEntry (files : Files) (opens : Bool) (cacheDir cacheKey : Bytes) : Option CacheEntry :=
  let filePath := getCacheFilePath cacheDir cacheKey
  match openRead files opens (metaPath filePath) with
  | none => some { filePath, lastModified := [], statusCode := 200 }
  | some text =>
    match Text.getlines lf text with
    | [] => some { filePath, lastModified := [], statusCode := 0 }
    | line :: lines =>
      (stoi line).map fun statusCode =>
        { filePath, lastModified := lines.head?.getD [], statusCode }

/-- What the metadata file is given. -/
def metadata (statusCode time : Int) : Bytes :=
  intText statusCode ++ lf :: (intText time ++ [lf])

def saveToCache (files : Files) (openings : Openings) (cacheDir cacheKey response : Bytes)
    (statusCode time : Int) : Files :=
  let filePath := getCacheFilePath cacheDir cacheKey
  if openings.save then
    -- The opening truncates the file.
    let files := (files.write filePath []).write filePath response
    if openings.saveMetadata then files.write (metaPath filePath) (metadata statusCode time)
    else files
  else files

/-! ## What the operations give -/

theorem openRead_eq_some {files : Files} {opens : Bool} {path text : Bytes}
    (h : openRead files opens path = some text) : files path = some text := by
  unfold openRead at h
  split at h
  · exact h
  · cases h

theorem getCacheEntry_filePath {files : Files} {opens : Bool} {cacheDir cacheKey : Bytes}
    {entry : CacheEntry} (h : getCacheEntry files opens cacheDir cacheKey = some entry) :
    entry.filePath = getCacheFilePath cacheDir cacheKey := by
  unfold getCacheEntry at h
  dsimp only at h
  split at h
  · cases h
    rfl
  · split at h
    · cases h
      rfl
    · obtain ⟨statusCode, -, rfl⟩ := Option.map_eq_some_iff.mp h
      rfl

theorem getCacheEntry_metadata {files : Files} {cacheDir cacheKey : Bytes} {statusCode time : Int}
    (hstatus : IsInt statusCode)
    (h : files (metaPath (getCacheFilePath cacheDir cacheKey)) = some (metadata statusCode time)) :
    getCacheEntry files true cacheDir cacheKey =
      some { filePath := getCacheFilePath cacheDir cacheKey, lastModified := intText time,
             statusCode } := by
  have hlines : Text.getlines lf (metadata statusCode time) = [intText statusCode, intText time] := by
    rw [metadata, Text.getlines_line lf (notMem_intText rfl statusCode),
      Text.getlines_line lf (notMem_intText rfl time)]
    rfl
  rw [getCacheEntry, openRead, if_pos rfl, h]
  dsimp only
  rw [hlines]
  dsimp only
  rw [stoi_intText hstatus]
  rfl

theorem saveToCache_all (files : Files) (cacheDir cacheKey response : Bytes)
    (statusCode time : Int) :
    saveToCache files .all cacheDir cacheKey response statusCode time =
      (files.write (getCacheFilePath cacheDir cacheKey) response).write
        (metaPath (getCacheFilePath cacheDir cacheKey)) (metadata statusCode time) := by
  rw [← Files.write_write files (getCacheFilePath cacheDir cacheKey) [] response]
  rfl

theorem saveToCache_eq_iff (files : Files) (openings : Openings)
    (cacheDir cacheKey response : Bytes) (statusCode time : Int) :
    saveToCache files openings cacheDir cacheKey response statusCode time = files ↔
      openings.save = false ∨
        files (getCacheFilePath cacheDir cacheKey) = some response ∧
          (openings.saveMetadata = true →
            files (metaPath (getCacheFilePath cacheDir cacheKey)) =
              some (metadata statusCode time)) := by
  unfold saveToCache
  have hne := metaPath_ne (getCacheFilePath cacheDir cacheKey)
  generalize getCacheFilePath cacheDir cacheKey = filePath at *
  cases hsave : openings.save with
  | false => simp
  | true =>
    cases hmeta : openings.saveMetadata with
    | false => simp [Files.write_eq_iff]
    | true =>
      simp only [if_true, Files.write_write, reduceCtorEq, false_or, forall_const]
      constructor
      · intro h
        have hfile := congrFun h filePath
        have hmetaFile := congrFun h (metaPath filePath)
        rw [Files.write_of_ne _ (Ne.symm hne), Files.write_self] at hfile
        rw [Files.write_self] at hmetaFile
        exact ⟨hfile.symm, hmetaFile.symm⟩
      · rintro ⟨hfile, hmetaFile⟩
        rw [(Files.write_eq_iff files filePath response).mpr hfile]
        exact (Files.write_eq_iff files _ _).mpr hmetaFile

theorem saveToCache_of_ne {files : Files} {openings : Openings} {cacheDir cacheKey response : Bytes}
    {statusCode time : Int} {p : Bytes} (hfile : p ≠ getCacheFilePath cacheDir cacheKey)
    (hmeta : p ≠ metaPath (getCacheFilePath cacheDir cacheKey)) :
    saveToCache files openings cacheDir cacheKey response statusCode time p = files p := by
  unfold saveToCache
  dsimp only
  split
  · split
    · rw [Files.write_of_ne _ hmeta, Files.write_write, Files.write_of_ne _ hfile]
    · rw [Files.write_write, Files.write_of_ne _ hfile]
  · rfl

end Proxy
