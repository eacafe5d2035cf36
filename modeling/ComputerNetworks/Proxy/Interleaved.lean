import ComputerNetworks.Lib.System
import ComputerNetworks.Proxy.Handle

/-!
# Requests at the same time

Any number of runs of `handleClient` for one key, step by step. `cacheMutex_` is held by `isCached`,
by `getCacheEntry` and by all of `saveToCache`, and not by the read of the response file.
-/

universe u

open Lib Lib.Bytes

namespace Proxy

/-! ## States -/

inductive Phase where
  | started
  | cached
  | found (filePath : Bytes)
  | opened (filePath : Bytes)
  | missed
  | storing (response : Bytes)
  | truncated (response : Bytes)
  | written (response : Bytes)
  | sent (response : Bytes) (hit : Bool)
  deriving DecidableEq

structure Runs (ι : Type u) where
  cacheDir : Bytes
  cacheKey : Bytes
  request : ι → ParsedRequest
  key : ∀ i, generateCacheKey (request i) = cacheKey

/-- `lock` has the run that is inside `saveToCache`, and `stored` the responses that were written
there. -/
structure State (ι : Type u) where
  files : Files
  lock : Option ι
  phase : ι → Phase
  stored : List Bytes

variable {ι : Type u}

def Runs.filePath (c : Runs ι) : Bytes := getCacheFilePath c.cacheDir c.cacheKey

def Runs.metaPath (c : Runs ι) : Bytes := Proxy.metaPath c.filePath

def afterEntry : Option CacheEntry → Phase
  | none =>
    .sent (createErrorResponse 500 (ofString "Internal Server Error")
      (ofString "Proxy server error: " ++ ofString "stoi")) false
  | some entry => if entry.statusCode = 200 then .found entry.filePath else .missed

def afterFetch (response : Bytes) : Phase :=
  if response ≠ [] ∧ shouldCache (extractStatusCode response) = true then .storing response
  else .sent (orInternalError response) false

/-! ## What is known -/

def State.Fits (c : Runs ι) (s : State ι) (i : ι) : Phase → Prop
  | .found filePath => filePath = c.filePath
  | .opened filePath => filePath = c.filePath ∧ (s.files c.filePath).isSome = true
  | .storing response => extractStatusCode response = 200
  | .truncated response =>
    extractStatusCode response = 200 ∧ s.lock = some i ∧ s.files c.filePath = some []
  | .written response => extractStatusCode response = 200 ∧ s.lock = some i
  | _ => True

/-- No run is between its truncating open and its write. -/
def State.Untorn (s : State ι) : Prop := ∀ i response, s.phase i ≠ .truncated response

structure State.Sound (c : Runs ι) (s : State ι) : Prop where
  fits : ∀ i, s.Fits c i (s.phase i)
  stored : ∀ response ∈ s.stored, extractStatusCode response = 200
  file : s.Untorn → ∀ text, s.files c.filePath = some text → text ∈ s.stored

theorem State.Sound.fits_of {c : Runs ι} {s : State ι} (h : s.Sound c) {i : ι} {phase : Phase}
    (hp : s.phase i = phase) : s.Fits c i phase := hp ▸ h.fits i

theorem State.Fits.frame {c : Runs ι} {s t : State ι} {j : ι} {phase : Phase}
    (h : s.Fits c j phase)
    (hfile : (s.files c.filePath).isSome = true → (t.files c.filePath).isSome = true)
    (hlock : s.lock = some j → t.lock = some j ∧ t.files c.filePath = s.files c.filePath) :
    t.Fits c j phase := by
  cases phase with
  | opened filePath => exact ⟨h.1, hfile h.2⟩
  | truncated response =>
    obtain ⟨hstatus, hj, hempty⟩ := h
    obtain ⟨htlock, htfile⟩ := hlock hj
    exact ⟨hstatus, htlock, htfile.trans hempty⟩
  | written response => exact ⟨h.1, (hlock h.2).1⟩
  | _ => exact h

theorem fits_afterEntry {c : Runs ι} (s : State ι) (i : ι) {opens : Bool} :
    s.Fits c i (afterEntry (getCacheEntry s.files opens c.cacheDir c.cacheKey)) := by
  cases hentry : getCacheEntry s.files opens c.cacheDir c.cacheKey with
  | none => trivial
  | some entry =>
    rw [afterEntry]
    split
    · exact getCacheEntry_filePath hentry
    · trivial

theorem fits_afterFetch {c : Runs ι} (s : State ι) (i : ι) (response : Bytes) :
    s.Fits c i (afterFetch response) := by
  unfold afterFetch
  split
  · rename_i hkeep
    exact (of_decide_eq_true hkeep.2 : extractStatusCode response = 200)
  · trivial

/-! ## Steps -/

variable [DecidableEq ι]

def State.move (s : State ι) (i : ι) (phase : Phase) : State ι :=
  { s with phase := fun j => if j = i then phase else s.phase j }

inductive Step (c : Runs ι) (s : State ι) : State ι → Prop where
  | refuse {i : ι} {response : Bytes} :
    s.phase i = .started → refusal (c.request i) = some response →
    Step c s (s.move i (.sent response false))
  | skip {i : ι} :
    s.phase i = .started → refusal (c.request i) = none →
    (c.request i).method ≠ ofString "GET" → Step c s (s.move i .missed)
  | check {i : ι} (opens : Bool) :
    s.phase i = .started → refusal (c.request i) = none →
    (c.request i).method = ofString "GET" → s.lock = none →
    Step c s (s.move i (if isCached s.files opens c.cacheDir c.cacheKey then .cached else .missed))
  | entry {i : ι} (opens : Bool) :
    s.phase i = .cached → s.lock = none →
    Step c s (s.move i (afterEntry (getCacheEntry s.files opens c.cacheDir c.cacheKey)))
  | openFile {i : ι} {filePath : Bytes} (opens : Bool) :
    s.phase i = .found filePath →
    Step c s (s.move i
      (if (openRead s.files opens filePath).isSome then .opened filePath else .missed))
  | read {i : ι} {filePath : Bytes} :
    s.phase i = .opened filePath →
    Step c s (s.move i (.sent (orInternalError ((s.files filePath).getD [])) true))
  | fetch {i : ι} (net : Net) :
    s.phase i = .missed →
    Step c s (s.move i (afterFetch (fetchFromServer net (c.request i))))
  | saveFails {i : ι} {response : Bytes} :
    s.phase i = .storing response → s.lock = none →
    Step c s (s.move i (.sent (orInternalError response) false))
  | truncate {i : ι} {response : Bytes} :
    s.phase i = .storing response → s.lock = none →
    Step c s { s.move i (.truncated response) with
      files := s.files.write c.filePath [], lock := some i }
  | write {i : ι} {response : Bytes} :
    s.phase i = .truncated response →
    Step c s { s.move i (.written response) with
      files := s.files.write c.filePath response, stored := response :: s.stored }
  | saveMetadata {i : ι} {response : Bytes} (opens : Bool) (time : Int) :
    s.phase i = .written response →
    Step c s { s.move i (.sent (orInternalError response) false) with
      files := if opens then
          s.files.write c.metaPath (metadata (extractStatusCode response) time)
        else s.files
      lock := none }

/-- At the start nothing runs, and the response file is absent or has a response that was stored. -/
structure Init (c : Runs ι) (s : State ι) : Prop where
  lock : s.lock = none
  phase : ∀ i, s.phase i = .started
  file : ∀ text, s.files c.filePath = some text → text ∈ s.stored
  stored : ∀ response ∈ s.stored, extractStatusCode response = 200

def handling (c : Runs ι) : System (State ι) where
  init := Init c
  step := Step c

/-! ## The invariant -/

@[simp] theorem State.move_self (s : State ι) (i : ι) (phase : Phase) :
    (s.move i phase).phase i = phase := if_pos rfl

theorem State.move_of_ne (s : State ι) {i j : ι} (h : j ≠ i) (phase : Phase) :
    (s.move i phase).phase j = s.phase j := if_neg h

theorem State.Untorn.of_move {s : State ι} {i : ι} {phase : Phase} (h : (s.move i phase).Untorn)
    (hphase : ∀ response, s.phase i ≠ .truncated response) : s.Untorn := by
  intro j response hj
  by_cases hji : j = i
  · exact hphase response (hji ▸ hj)
  · exact h j response ((State.move_of_ne s hji phase).trans hj)

theorem State.Sound.move {c : Runs ι} {s : State ι} (h : s.Sound c) {i : ι} {phase : Phase}
    (hphase : ∀ response, s.phase i ≠ .truncated response) (hfits : s.Fits c i phase) :
    (s.move i phase).Sound c where
  fits j := by
    by_cases hj : j = i
    · rw [hj, State.move_self]
      exact hfits
    · rw [State.move_of_ne s hj]
      exact h.fits j
  stored := h.stored
  file huntorn := h.file (huntorn.of_move hphase)

theorem State.Sound.change {c : Runs ι} {s t : State ι} (h : s.Sound c) {i : ι} {phase : Phase}
    (hphase : t.phase = (s.move i phase).phase) (hfits : t.Fits c i phase)
    (hfile : (s.files c.filePath).isSome = true → (t.files c.filePath).isSome = true)
    (hlock : ∀ j, j ≠ i → s.lock = some j →
      t.lock = some j ∧ t.files c.filePath = s.files c.filePath)
    (hstored : ∀ response ∈ t.stored, extractStatusCode response = 200)
    (hwhole : t.Untorn → ∀ text, t.files c.filePath = some text → text ∈ t.stored) :
    t.Sound c where
  fits j := by
    rw [hphase]
    by_cases hj : j = i
    · rw [hj, State.move_self]
      exact hfits
    · rw [State.move_of_ne s hj]
      exact (h.fits j).frame hfile (hlock j hj)
  stored := hstored
  file := hwhole

theorem sound_step {c : Runs ι} {s t : State ι} (h : s.Sound c) (hst : Step c s t) : t.Sound c := by
  cases hst with
  | refuse hp _ => exact h.move (by simp [hp]) trivial
  | skip hp _ _ => exact h.move (by simp [hp]) trivial
  | check opens hp _ _ _ =>
    refine h.move (by simp [hp]) ?_
    split <;> trivial
  | entry opens hp _ => exact h.move (by simp [hp]) (fits_afterEntry s _)
  | @openFile i filePath opens hp =>
    refine h.move (by simp [hp]) ?_
    have hpath : filePath = c.filePath := h.fits_of hp
    split
    · rename_i hopen
      obtain ⟨text, htext⟩ := Option.isSome_iff_exists.mp hopen
      refine ⟨hpath, ?_⟩
      rw [← hpath, openRead_eq_some htext]
      rfl
    · trivial
  | read hp => exact h.move (by simp [hp]) trivial
  | fetch net hp => exact h.move (by simp [hp]) (fits_afterFetch s _ _)
  | saveFails hp _ => exact h.move (by simp [hp]) trivial
  | @truncate i response hp hlock =>
    refine h.change (i := i) rfl ⟨h.fits_of hp, rfl, Files.write_self _ _ _⟩ ?_ ?_ h.stored ?_
    · exact fun _ => congrArg Option.isSome (Files.write_self s.files c.filePath [])
    · -- Nobody else is inside `saveToCache`.
      intro j _ hj
      rw [hlock] at hj
      cases hj
    · exact fun huntorn => absurd (State.move_self s i _) (huntorn i response)
  | @write i response hp =>
    obtain ⟨hstatus, hlock, -⟩ := h.fits_of hp
    refine h.change (i := i) rfl ⟨hstatus, hlock⟩ ?_ ?_ ?_ ?_
    · exact fun _ => congrArg Option.isSome (Files.write_self s.files c.filePath response)
    · intro j hj hjlock
      change s.lock = some j at hjlock
      rw [hlock] at hjlock
      exact absurd (Option.some.inj hjlock).symm hj
    · exact List.forall_mem_cons.mpr ⟨hstatus, h.stored⟩
    · intro _ text htext
      have htext := (Files.write_self s.files c.filePath response).symm.trans htext
      exact List.mem_cons.mpr (Or.inl (Option.some.inj htext).symm)
  | @saveMetadata i response opens time hp =>
    obtain ⟨-, hlock⟩ := h.fits_of hp
    have hfile : (if opens then s.files.write c.metaPath (metadata (extractStatusCode response) time)
        else s.files) c.filePath = s.files c.filePath := by
      split
      · exact Files.write_of_ne _ (metaPath_ne c.filePath).symm _
      · rfl
    refine h.change (i := i) rfl trivial ?_ ?_ h.stored ?_
    · exact fun hsome => (congrArg Option.isSome hfile).trans hsome
    · intro j hj hjlock
      change s.lock = some j at hjlock
      rw [hlock] at hjlock
      exact absurd (Option.some.inj hjlock).symm hj
    · intro huntorn text htext
      have hs : s.Untorn := State.Untorn.of_move huntorn (by simp [hp])
      exact h.file hs text (hfile.symm.trans htext)

theorem reachable_sound {c : Runs ι} {s : State ι} (h : (handling c).Reachable s) : s.Sound c := by
  induction h with
  | init h0 =>
    refine ⟨fun i => ?_, h0.stored, fun _ => h0.file⟩
    rw [h0.phase i]
    trivial
  | step _ hst ih => exact sound_step ih hst

end Proxy
