import ComputerNetworks.Proxy.Handle

/-!
# Inside the cache directory

No request makes the proxy touch a file outside the cache directory: what the files there have is all
that it reads, and they are all that it writes.
-/

open Lib Lib.Bytes Lib.Ctype

namespace Proxy

/-! ## File names -/

/-- A name that stands for a file of the directory that it is looked up in. -/
structure FileName (name : Bytes) : Prop where
  ne_nil : name ≠ []
  letters : ∀ c ∈ name, isalnum c = true ∨ c = dot ∨ c = hyphen ∨ c = underscore
  ne_dot : name ≠ [dot]
  ne_dots : name ≠ [dot, dot]

def Inside (cacheDir path : Bytes) : Prop := ∃ name, FileName name ∧ path = cacheDir ++ slash :: name

theorem letter_of_mem_sanitizeFilename {filename : Bytes} {c : UInt8}
    (h : c ∈ sanitizeFilename filename) :
    isalnum c = true ∨ c = dot ∨ c = hyphen ∨ c = underscore := by
  obtain ⟨d, -, rfl⟩ := List.mem_map.mp h
  split
  · rename_i hd
    split
    · exact Or.inr (Or.inr (Or.inr rfl))
    · rename_i hslash
      simpa [hslash, or_assoc] using hd
  · exact Or.inr (Or.inr (Or.inr rfl))

theorem fileName_of_colon {cacheKey : Bytes} (h : colon ∈ cacheKey) :
    FileName (sanitizeFilename cacheKey) := by
  have hmem : underscore ∈ sanitizeFilename cacheKey := List.mem_map.mpr ⟨colon, h, rfl⟩
  refine ⟨List.ne_nil_of_mem hmem, fun c => letter_of_mem_sanitizeFilename, ?_, ?_⟩
  · intro heq
    rw [heq] at hmem
    exact absurd hmem (by decide)
  · intro heq
    rw [heq] at hmem
    exact absurd hmem (by decide)

theorem inside_of_colon (cacheDir : Bytes) {cacheKey : Bytes} (h : colon ∈ cacheKey) :
    Inside cacheDir (getCacheFilePath cacheDir cacheKey) :=
  ⟨_, fileName_of_colon h, rfl⟩

theorem colon_mem_generateCacheKey (request : ParsedRequest) : colon ∈ generateCacheKey request := by
  simp [generateCacheKey]

theorem inside_filePath (cacheDir : Bytes) (request : ParsedRequest) :
    Inside cacheDir (getCacheFilePath cacheDir (generateCacheKey request)) :=
  inside_of_colon cacheDir (colon_mem_generateCacheKey request)

theorem inside_metaPath (cacheDir : Bytes) (request : ParsedRequest) :
    Inside cacheDir (metaPath (getCacheFilePath cacheDir (generateCacheKey request))) := by
  rw [metaPath_getCacheFilePath]
  exact inside_of_colon cacheDir (List.mem_append_left _ (colon_mem_generateCacheKey request))

/-! ## What is read and written -/

/-- Two file systems that are the same outside the cache directory. -/
def SameOutside (cacheDir : Bytes) (files files' : Files) : Prop :=
  ∀ path, ¬Inside cacheDir path → files path = files' path

/-- Two file systems that are the same in the cache directory. -/
def SameInside (cacheDir : Bytes) (files files' : Files) : Prop :=
  ∀ path, Inside cacheDir path → files path = files' path

variable {cacheDir : Bytes} {files files' : Files} {openings : Openings} {request : ParsedRequest}

theorem keep_sameOutside (files : Files) (openings : Openings) (cacheDir : Bytes)
    (request : ParsedRequest) (response : Bytes) (time : Int) :
    SameOutside cacheDir (keep files openings cacheDir request response time) files := by
  intro path hpath
  unfold keep
  split
  · apply saveToCache_of_ne
    · rintro rfl
      exact hpath (inside_filePath cacheDir request)
    · rintro rfl
      exact hpath (inside_metaPath cacheDir request)
  · rfl

theorem write_congr {path : Bytes} (h : files path = files' path) (p contents : Bytes) :
    files.write p contents path = files'.write p contents path := by
  unfold Files.write
  split
  · rfl
  · exact h

theorem keep_sameInside (h : SameInside cacheDir files files') (response : Bytes) (time : Int) :
    SameInside cacheDir (keep files openings cacheDir request response time)
      (keep files' openings cacheDir request response time) := by
  intro path hpath
  unfold keep saveToCache
  dsimp only
  split_ifs
  · exact write_congr (write_congr (write_congr (h path hpath) _ _) _ _) _ _
  · exact write_congr (write_congr (h path hpath) _ _) _ _
  · exact h path hpath
  · exact h path hpath

theorem openRead_congr (h : SameInside cacheDir files files') (opens : Bool) {path : Bytes}
    (hpath : Inside cacheDir path) : openRead files opens path = openRead files' opens path := by
  unfold openRead
  rw [h path hpath]

theorem getCacheEntry_congr (h : SameInside cacheDir files files') (opens : Bool)
    (request : ParsedRequest) :
    getCacheEntry files opens cacheDir (generateCacheKey request) =
      getCacheEntry files' opens cacheDir (generateCacheKey request) := by
  unfold getCacheEntry
  dsimp only
  rw [openRead_congr h opens (inside_metaPath cacheDir request)]

theorem lookup_congr (h : SameInside cacheDir files files') (openings : Openings)
    (request : ParsedRequest) :
    lookup files openings cacheDir request = lookup files' openings cacheDir request := by
  have hfile := fun opens => openRead_congr h opens (inside_filePath cacheDir request)
  unfold lookup isCached
  dsimp only
  rw [hfile, getCacheEntry_congr h]
  split
  · split
    · rfl
    · rename_i entry hentry
      rw [getCacheEntry_filePath hentry, hfile]
  · rfl

theorem handleParsed_sameOutside (cacheDir : Bytes) (world : World) (server : Server)
    (request : ParsedRequest) :
    SameOutside cacheDir (handleParsed cacheDir world server request).server.files server.files := by
  unfold handleParsed
  split
  · exact fun _ _ => rfl
  · dsimp only
    split
    · exact fun _ _ => rfl
    · exact fun _ _ => rfl
    · exact keep_sameOutside _ _ _ _ _ _

/-- What is handled in the same way: the same response, the same statistics, and the same files in the
cache directory. -/
structure SameHandling (cacheDir : Bytes) (handled handled' : Handled) : Prop where
  response : handled.response = handled'.response
  fetched : handled.fetched = handled'.fetched
  stats : handled.server.stats = handled'.server.stats
  files : SameInside cacheDir handled.server.files handled'.server.files

theorem handleParsed_sameHandling (world : World) (stats : Stats) (request : ParsedRequest)
    (h : SameInside cacheDir files files') :
    SameHandling cacheDir (handleParsed cacheDir world { files, stats } request)
      (handleParsed cacheDir world { files := files', stats } request) := by
  unfold handleParsed
  split
  · exact ⟨rfl, rfl, rfl, h⟩
  · dsimp only [Server.updateStats_files]
    rw [lookup_congr h]
    split
    · exact ⟨rfl, rfl, rfl, h⟩
    · exact ⟨rfl, rfl, rfl, h⟩
    · exact ⟨rfl, rfl, rfl, keep_sameInside h _ _⟩

/-- **Confinement.** For every request, both files of it stand in the cache directory. No file outside
is written, and no such file makes a difference. -/
theorem cache_confined (cacheDir rawRequest : Bytes) :
    let request := parseRequest rawRequest
    let filePath := getCacheFilePath cacheDir (generateCacheKey request)
    Inside cacheDir filePath ∧ Inside cacheDir (metaPath filePath) ∧
      ∀ (world : World) (stats : Stats) (files : Files),
        let handled := handleParsed cacheDir world { files, stats } request
        SameOutside cacheDir handled.server.files files ∧
          ∀ files', SameInside cacheDir files files' →
            SameHandling cacheDir handled
              (handleParsed cacheDir world { files := files', stats } request) := by
  intro request filePath
  refine ⟨inside_filePath cacheDir request, inside_metaPath cacheDir request, ?_⟩
  intro world stats files handled
  refine ⟨handleParsed_sameOutside cacheDir world _ request, ?_⟩
  exact fun files' h => handleParsed_sameHandling world stats request h

end Proxy
