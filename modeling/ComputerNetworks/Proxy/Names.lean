import ComputerNetworks.Lib.Mask
import ComputerNetworks.Proxy.Request

/-!
# The names of cache files

The key of a request, the file that the cache keeps its response in, and the requests that share
such a file.
-/

open Lib Lib.Bytes Lib.Ctype Lib.Mask Lib.Number

namespace Proxy

def generateCacheKey (request : ParsedRequest) : Bytes :=
  request.host ++ colon :: intText request.port ++ request.path

def underscore : UInt8 := 0x5F

def sanitizeFilename (filename : Bytes) : Bytes :=
  filename.map fun c =>
    if isalnum c || c = dot || c = hyphen || c = underscore || c = slash then
      if c = slash then underscore else c
    else underscore

def getCacheFilePath (cacheDir cacheKey : Bytes) : Bytes :=
  cacheDir ++ slash :: sanitizeFilename cacheKey

def metaPath (filePath : Bytes) : Bytes := filePath ++ ofString ".meta"

theorem metaPath_ne (filePath : Bytes) : metaPath filePath ≠ filePath := by
  intro h
  have hlen := congrArg List.length h
  rw [metaPath, List.length_append] at hlen
  have : (ofString ".meta").length = 5 := rfl
  omega

/-! ## What a name tells -/

/-- The letters that a file name keeps and that nothing else is turned into. -/
def telling (c : UInt8) : Bool := isalnum c || c = dot || c = hyphen

theorem sanitizeFilename_eq_mask (filename : Bytes) :
    sanitizeFilename filename = mask telling underscore filename := by
  refine List.map_congr_left fun c _ => ?_
  have hslash : telling slash = false := rfl
  by_cases hs : c = slash
  · rw [hs, hslash]
    rfl
  by_cases hu : c = underscore
  · rw [hu]
    rfl
  · simp [telling, hs, hu]

theorem sanitizeFilename_meta (filename : Bytes) :
    sanitizeFilename filename ++ ofString ".meta" =
      sanitizeFilename (filename ++ ofString ".meta") := by
  have hmeta : ∀ c ∈ ofString ".meta", telling c = true := List.all_eq_true.mp (by decide)
  rw [sanitizeFilename_eq_mask, sanitizeFilename_eq_mask, mask_append, mask_of_kept underscore hmeta]

theorem getCacheFilePath_eq_iff (cacheDir cacheKey cacheKey' : Bytes) :
    getCacheFilePath cacheDir cacheKey = getCacheFilePath cacheDir cacheKey' ↔
      List.Forall₂ (Alike telling) cacheKey cacheKey' := by
  rw [getCacheFilePath, getCacheFilePath, List.append_right_inj, List.cons.injEq,
    sanitizeFilename_eq_mask, sanitizeFilename_eq_mask, mask_eq_iff rfl, eq_self, true_and]

theorem metaPath_getCacheFilePath (cacheDir cacheKey : Bytes) :
    metaPath (getCacheFilePath cacheDir cacheKey) =
      getCacheFilePath cacheDir (cacheKey ++ ofString ".meta") := by
  rw [getCacheFilePath, getCacheFilePath, ← sanitizeFilename_meta, metaPath, List.append_assoc,
    List.cons_append]

/-! ## Shared files -/

/-- The files of two response paths have nothing in common. -/
structure Apart (filePath filePath' : Bytes) : Prop where
  response : filePath ≠ filePath'
  left : filePath ≠ metaPath filePath'
  right : filePath' ≠ metaPath filePath

instance (filePath filePath' : Bytes) : Decidable (Apart filePath filePath') :=
  decidable_of_iff
    (filePath ≠ filePath' ∧ filePath ≠ metaPath filePath' ∧ filePath' ≠ metaPath filePath)
    ⟨fun h => ⟨h.1, h.2.1, h.2.2⟩, fun h => ⟨h.response, h.left, h.right⟩⟩

def DisjointFiles (cacheDir : Bytes) (r r' : ParsedRequest) : Prop :=
  Apart (getCacheFilePath cacheDir (generateCacheKey r))
    (getCacheFilePath cacheDir (generateCacheKey r'))

instance (cacheDir : Bytes) (r r' : ParsedRequest) : Decidable (DisjointFiles cacheDir r r') :=
  inferInstanceAs (Decidable (Apart _ _))

/-- `host:port/path` of the one and `host:port/path` of the other, with something behind it, differ
only in letters that are none of letters, digits, dots and hyphens. -/
def Confused (r r' : ParsedRequest) (behind : Bytes) : Prop :=
  List.Forall₂ (Alike telling) (r.host ++ colon :: intText r.port ++ r.path)
    (r'.host ++ colon :: intText r'.port ++ r'.path ++ behind)

/-- **Cache files.** Two requests are kept apart exactly when their names are, and when neither of
them is named as the other one with `.meta` behind it. -/
theorem disjointFiles_iff (cacheDir : Bytes) (r r' : ParsedRequest) :
    DisjointFiles cacheDir r r' ↔
      ¬Confused r r' [] ∧ ¬Confused r r' (ofString ".meta") ∧ ¬Confused r' r (ofString ".meta") := by
  have hresponse := getCacheFilePath_eq_iff cacheDir (generateCacheKey r) (generateCacheKey r')
  have hleft := getCacheFilePath_eq_iff cacheDir (generateCacheKey r)
    (generateCacheKey r' ++ ofString ".meta")
  have hright := getCacheFilePath_eq_iff cacheDir (generateCacheKey r')
    (generateCacheKey r ++ ofString ".meta")
  rw [← metaPath_getCacheFilePath] at hleft hright
  unfold Confused
  rw [List.append_nil]
  constructor
  · rintro ⟨h, h', h''⟩
    exact ⟨fun hc => h (hresponse.mpr hc), fun hc => h' (hleft.mpr hc), fun hc => h'' (hright.mpr hc)⟩
  · rintro ⟨h, h', h''⟩
    exact ⟨fun heq => h (hresponse.mp heq), fun heq => h' (hleft.mp heq),
      fun heq => h'' (hright.mp heq)⟩

/-- `/a/b` and `/a_b` of one host are kept in one file. -/
theorem slash_shares_underscore :
    let r := parseRequest (ofString "GET http://h/a/b HTTP/1.1\r\n\r\n")
    let r' := parseRequest (ofString "GET http://h/a_b HTTP/1.1\r\n\r\n")
    (r.host, r.port, r.path) ≠ (r'.host, r'.port, r'.path) ∧
      ¬DisjointFiles (ofString "./cache") r r' := by
  decide

end Proxy
