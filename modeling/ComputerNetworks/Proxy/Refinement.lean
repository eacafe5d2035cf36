import ComputerNetworks.Proxy.Hits
import ComputerNetworks.Proxy.Statistics

/-!
# The threads and their phases

Threads that handle requests with one key go through the phases of `handling`: each of their actions is one
step there, or is not seen there.
-/

universe u

open Lib Lib.Bytes

namespace Proxy

/-! ## Where a thread stands -/

section Stands

variable (request : ParsedRequest)

/-- Behind `isCached`. -/
def looked (cached : Bool) : Client :=
  if cached then .act (.getCacheEntry (generateCacheKey request)) (entering request) else missing request

/-- Behind the read of the response file. -/
def gotten (response : Bytes) : Client :=
  .act (.updateStats true false) fun _ => .done (.hit (orInternalError response))

/-- Behind its opening. -/
def opened (filePath : Bytes) (isOpen : Bool) : Client :=
  if isOpen then .act (.read filePath) gotten else missing request

/-- Behind `fetchFromServer`. -/
def fetched (response : Bytes) : Client :=
  if response ≠ [] ∧ shouldCache (extractStatusCode response) = true then saving request response
  else .done (.fetched (orInternalError response))

/-- Behind the truncating open, and before the write. -/
def truncated (response : Bytes) : Client :=
  .act (.write (generateCacheKey request) response) fun _ =>
  .act (.saveMetadata (generateCacheKey request) (extractStatusCode response)) fun _ =>
  .done (.fetched (orInternalError response))

/-- The phase of a thread. The statistics are counted before and behind it. -/
inductive Stands : Phase → Client → Prop where
  | fresh {thread : Client} : thread = handleClient request → Stands .started thread
  | looking : refusal request = none → request.method = ofString "GET" →
    Stands .started (.act (.isCached (generateCacheKey request)) (looked request))
  | cached : Stands .cached (.act (.getCacheEntry (generateCacheKey request)) (entering request))
  | found (filePath : Bytes) : Stands (.found filePath) (.act (.openRead filePath) (opened request filePath))
  | opened (filePath : Bytes) : Stands (.opened filePath) (.act (.read filePath) gotten)
  | missed {thread : Client} : thread = missing request → Stands .missed thread
  | asking : Stands .missed (.act (.fetchFromServer request) (fetched request))
  | storing {response : Bytes} {thread : Client} : thread = saving request response →
    Stands (.storing response) thread
  | truncated {response : Bytes} {thread : Client} : thread = truncated request response →
    Stands (.truncated response) thread
  | written (response : Bytes) : Stands (.written response)
      (.act (.saveMetadata (generateCacheKey request) (extractStatusCode response)) fun _ =>
        .done (.fetched (orInternalError response)))
  | counting (cacheHit error : Bool) (outcome : Outcome) :
    Stands (.sent outcome.response outcome.isHit) (.act (.updateStats cacheHit error) fun _ => .done outcome)
  | ended (outcome : Outcome) : Stands (.sent outcome.response outcome.isHit) (.done outcome)

theorem stands_entering (entry : Option CacheEntry) :
    Stands request (afterEntry entry) (entering request entry) := by
  cases entry with
  | none =>
    exact .counting false true (.failed (createErrorResponse 500 (ofString "Internal Server Error")
      (ofString "Proxy server error: " ++ ofString "stoi")))
  | some entry =>
    rw [afterEntry, entering]
    split
    · exact .found entry.filePath
    · exact .missed rfl

theorem stands_fetched (response : Bytes) :
    Stands request (afterFetch response) (fetched request response) := by
  unfold afterFetch fetched
  split
  · exact .storing rfl
  · exact .ended (.fetched (orInternalError response))

end Stands

variable {ι : Type u} {c : Runs ι} {s s' : Threads ι Shared Action Action.Result Outcome} {t : State ι}

/-- The threads are in these phases, and share what is shared there. -/
structure Refines (c : Runs ι) (s : Threads ι Shared Action Action.Result Outcome) (t : State ι) : Prop where
  files : s.shared.server.files = t.files
  locked : s.shared.locked = t.lock.isSome
  stands : ∀ i, Stands (c.request i) (t.phase i) (s.thread i)

theorem Refines.free (h : Refines c s t) (hlocked : s.shared.locked = false) : t.lock = none := by
  rw [h.locked] at hlocked
  exact Option.not_isSome_iff_eq_none.mp (Bool.eq_false_iff.mp hlocked)

/-! ## One action -/

variable [DecidableEq ι] {i : ι} {g : Shared} {thread : Client}

theorem Refines.go (h : Refines c s t) {t' : State ι} {phase : Phase} (hfiles : g.server.files = t'.files)
    (hlocked : g.locked = t'.lock.isSome) (hphase : t'.phase = (t.move i phase).phase)
    (hstands : Stands (c.request i) phase thread) : Refines c (s.go i g thread) t' := by
  refine ⟨hfiles, hlocked, fun j => ?_⟩
  rw [hphase]
  by_cases hj : j = i
  · rw [hj, State.move_self, Threads.go_self]
    exact hstands
  · rw [State.move_of_ne t hj, Threads.go_of_ne s hj]
    exact h.stands j

theorem Refines.stay (h : Refines c s t) (hfiles : g.server.files = s.shared.server.files)
    (hlocked : g.locked = s.shared.locked) (hstands : Stands (c.request i) (t.phase i) thread) :
    Refines c (s.go i g thread) t := by
  refine h.go (hfiles.trans h.files) (hlocked.trans h.locked) ?_ hstands
  funext j
  by_cases hj : j = i
  · rw [hj, State.move_self]
  · rw [State.move_of_ne t hj]

theorem Refines.move (h : Refines c s t) {phase : Phase} (hfiles : g.server.files = s.shared.server.files)
    (hlocked : g.locked = s.shared.locked) (hstands : Stands (c.request i) phase thread) :
    Refines c (s.go i g thread) (t.move i phase) :=
  h.go (hfiles.trans h.files) (hlocked.trans h.locked) rfl hstands

theorem refines_step {files₀ : Files} (h : Refines c s t)
    (hst : (servingFrom c.cacheDir files₀ c.request).step s s') :
    ∃ t', (t' = t ∨ Step c t t') ∧ Refines c s' t' := by
  obtain ⟨i, a, next, r, g, hi, hexec, rfl⟩ := hst
  have hstands := h.stands i
  have hkey := c.key i
  rw [hi] at hstands
  generalize hp : t.phase i = phase at hstands
  cases hstands with
  | fresh hthread =>
    unfold handleClient at hthread
    cases hrefusal : refusal (c.request i) with
    | some response =>
      rw [hrefusal] at hthread
      cases hthread
    | none =>
      rw [hrefusal] at hthread
      cases hthread
      cases hexec
      by_cases hget : (c.request i).method = ofString "GET"
      · refine ⟨t, .inl rfl, h.stay rfl rfl ?_⟩
        rw [hp, if_pos hget]
        exact .looking hrefusal hget
      · refine ⟨_, .inr (.skip hp hrefusal hget), h.move rfl rfl ?_⟩
        rw [if_neg hget]
        exact .missed rfl
  | looking hrefusal hget =>
    obtain ⟨hlocked, rfl, opens, rfl⟩ := hexec
    refine ⟨_, .inr (.check opens hp hrefusal hget (h.free hlocked)), h.move rfl rfl ?_⟩
    rw [h.files, hkey, looked]
    split
    · exact .cached
    · exact .missed rfl
  | cached =>
    obtain ⟨hlocked, rfl, opens, rfl⟩ := hexec
    refine ⟨_, .inr (.entry opens hp (h.free hlocked)), h.move rfl rfl ?_⟩
    rw [h.files, hkey]
    exact stands_entering _ _
  | found filePath =>
    obtain ⟨rfl, opens, rfl⟩ := hexec
    refine ⟨_, .inr (.openFile opens hp), h.move rfl rfl ?_⟩
    rw [h.files, opened]
    split
    · exact .opened filePath
    · exact .missed rfl
  | opened filePath =>
    obtain ⟨rfl, rfl⟩ := hexec
    refine ⟨_, .inr (.read hp), h.move rfl rfl ?_⟩
    rw [h.files]
    exact .counting true false (.hit _)
  | missed hthread =>
    cases hthread
    cases hexec
    refine ⟨t, .inl rfl, h.stay rfl rfl ?_⟩
    rw [hp]
    exact .asking
  | asking =>
    obtain ⟨rfl, net, rfl⟩ := hexec
    exact ⟨_, .inr (.fetch net hp), h.move rfl rfl (stands_fetched _ _)⟩
  | @storing response _ hthread =>
    cases hthread
    obtain ⟨hlocked, ⟨rfl, rfl⟩ | ⟨rfl, rfl⟩⟩ := hexec
    · exact ⟨_, .inr (.saveFails hp (h.free hlocked)), h.move rfl rfl (.ended (.fetched _))⟩
    · refine ⟨_, .inr (.truncate hp (h.free hlocked)), h.go ?_ rfl rfl (.truncated rfl)⟩
      dsimp only
      rw [h.files, hkey]
      rfl
  | @truncated response _ hthread =>
    cases hthread
    cases hexec
    refine ⟨_, .inr (.write hp), h.go ?_ h.locked rfl (.written response)⟩
    dsimp only
    rw [h.files, hkey]
    rfl
  | written response =>
    obtain ⟨opens, time, rfl⟩ := hexec
    refine ⟨_, .inr (.saveMetadata opens time hp), h.go ?_ rfl rfl (.ended (.fetched _))⟩
    dsimp only
    rw [h.files, hkey]
    rfl
  | counting cacheHit error outcome =>
    cases hexec
    refine ⟨t, .inl rfl, h.stay rfl rfl ?_⟩
    rw [hp]
    exact .ended outcome

/-! ## Whole runs -/

/-- No thread reads the response file while another one is between its truncating open and its write. -/
def ThreadsUntorn (s s' : Threads ι Shared Action Action.Result Outcome) : Prop :=
  ∀ i filePath next, s.thread i = .act (.read filePath) next → s'.thread i ≠ .act (.read filePath) next →
    ∀ j cacheKey response next', s.thread j ≠ .act (.write cacheKey response) next'

theorem Stands.eq_of_opened {request : ParsedRequest} {filePath : Bytes}
    (h : Stands request (.opened filePath) thread) : thread = .act (.read filePath) gotten := by
  cases h
  rfl

theorem Stands.eq_of_truncated {request : ParsedRequest} {response : Bytes}
    (h : Stands request (.truncated response) thread) : thread = Proxy.truncated request response := by
  cases h with
  | truncated hthread => exact hthread

/-- Only a thread that has the file open reads it, and only one that has sent a hit ends with one. -/
theorem Stands.phase_eq {request : ParsedRequest} {phase : Phase} (h : Stands request phase thread) :
    (∀ filePath next, thread = .act (.read filePath) next → phase = .opened filePath) ∧
      ∀ response, thread = .done (.hit response) → phase = .sent response true := by
  cases h with
  | fresh hthread =>
    unfold handleClient at hthread
    cases hrefusal : refusal request <;> rw [hrefusal] at hthread <;> subst hthread <;> exact ⟨nofun, nofun⟩
  | missed hthread | storing hthread | truncated hthread =>
    subst hthread
    exact ⟨nofun, nofun⟩
  | opened filePath =>
    refine ⟨fun filePath' next heq => ?_, nofun⟩
    cases heq
    rfl
  | ended outcome =>
    refine ⟨nofun, fun response heq => ?_⟩
    cases heq
    rfl
  | looking | cached | found | asking | written | counting => exact ⟨nofun, nofun⟩

omit [DecidableEq ι] in
theorem Refines.readsUntorn {t' : State ι} (h : Refines c s t) (h' : Refines c s' t')
    (huntorn : ThreadsUntorn s s') : ReadsUntorn t t' := by
  intro i filePath hp hp' j response hj
  have hread := h.stands i
  rw [hp] at hread
  have hwrite := h.stands j
  rw [hj] at hwrite
  refine huntorn i filePath gotten hread.eq_of_opened (fun heq => hp' ?_) j _ _ _ hwrite.eq_of_truncated
  have hstays := h'.stands i
  rw [heq] at hstays
  exact hstays.phase_eq.1 _ _ rfl

theorem refines_init {files₀ : Files}
    (hfile : ∀ text, files₀ c.filePath = some text → extractStatusCode text = 200)
    (h0 : (servingFrom c.cacheDir files₀ c.request).init s) : ∃ t, (handling c).init t ∧ Refines c s t := by
  obtain ⟨⟨⟨-, hlocked⟩, hfiles⟩, hthread⟩ := h0
  refine ⟨⟨files₀, none, fun _ => .started, (files₀ c.filePath).toList⟩, ⟨rfl, fun _ => rfl, ?_, ?_⟩,
    hfiles, hlocked, fun i => .fresh (congrFun hthread i)⟩
  · exact fun text htext => Option.mem_toList.mpr htext
  · exact fun text htext => hfile text (Option.mem_toList.mp htext)

theorem untorn_refine {files₀ : Files}
    (hfile : ∀ text, files₀ c.filePath = some text → extractStatusCode text = 200)
    (h : ((servingFrom c.cacheDir files₀ c.request).within ThreadsUntorn).Reachable s) :
    ∃ t, ((handling c).within ReadsUntorn).Reachable t ∧ Refines c s t := by
  refine h.beside (fun s h0 => ?_) fun s s' t _ _ hrefines hst => ?_
  · exact refines_init hfile h0
  · obtain ⟨t', rfl | ht, hrefines'⟩ := refines_step hrefines hst.1
    · exact ⟨_, .refl _, hrefines'⟩
    · exact ⟨_, .of_step ⟨ht, hrefines.readsUntorn hrefines' hst.2⟩, hrefines'⟩

/-- **Refinement.** Where the threads come with requests of one key, there the phases come, with the same
files. So while no thread reads the response file between the truncating open and the write of another one,
every hit is a response of status 200. -/
theorem threads_refine (c : Runs ι) (files₀ : Files)
    (hfile : ∀ text, files₀ c.filePath = some text → extractStatusCode text = 200) :
    (∀ s, (servingFrom c.cacheDir files₀ c.request).Reachable s →
      ∃ t, (handling c).Reachable t ∧ Refines c s t) ∧
    ∀ s, ((servingFrom c.cacheDir files₀ c.request).within ThreadsUntorn).Reachable s →
      (∃ t, ((handling c).within ReadsUntorn).Reachable t ∧ Refines c s t) ∧
        ∀ i response, s.thread i = .done (.hit response) → extractStatusCode response = 200 := by
  refine ⟨fun s h => ?_, fun s h => ?_⟩
  · refine h.beside (fun s h0 => refines_init hfile h0) fun s s' t _ _ hrefines hst => ?_
    obtain ⟨t', rfl | ht, hrefines'⟩ := refines_step hrefines hst
    · exact ⟨_, .refl _, hrefines'⟩
    · exact ⟨_, .of_step ht, hrefines'⟩
  · obtain ⟨t, ht, hrefines⟩ := untorn_refine hfile h
    refine ⟨⟨t, ht, hrefines⟩, fun i response hhit => ?_⟩
    have hphase := hrefines.stands i
    rw [hhit] at hphase
    exact (reachable_sound ht.of_within).stored response (hits_stored ht i response (hphase.phase_eq.2 _ rfl))

/-- One thread, which finds a page in the cache. -/
def oneHit : Runs (Fin 1) where
  cacheDir := ofString "./cache"
  cacheKey := ofString "h:80/p"
  request _ := pageRequest
  key _ := by decide

theorem oneHit_refines : ∃ s, (servingFrom oneHit.cacheDir
      (Files.write (fun _ => none) oneHit.filePath page) oneHit.request).Reachable s ∧
    s.thread 0 = .done (.hit page) ∧ extractStatusCode page = 200 ∧
    ∃ t, (handling oneHit).Reachable t ∧ Refines oneHit s t := by
  let files₀ : Files := Files.write (fun _ => none) oneHit.filePath page
  let server : Server := { files := files₀, stats := Stats.zero }
  have hfile : ∀ text, files₀ oneHit.filePath = some text → extractStatusCode text = 200 := by
    intro text htext
    obtain rfl := Option.some.inj ((Files.write_self _ _ _).symm.trans htext)
    decide +kernel
  have hruns : (handleClient pageRequest).Runs (Exec oneHit.cacheDir) ⟨server, false⟩ (.hit page)
      ⟨(server.updateStats false false).updateStats true false, false⟩ := by
    have hrefusal : refusal pageRequest = none := by decide
    unfold handleClient
    rw [hrefusal]
    refine .act () rfl (.act true ⟨rfl, rfl, true, by decide +kernel⟩ (.act (some
      { filePath := oneHit.filePath, lastModified := [], statusCode := 200 })
      ⟨rfl, rfl, true, by decide +kernel⟩ ?_))
    exact .act true ⟨rfl, true, by decide +kernel⟩
      (.act page ⟨rfl, by decide +kernel⟩ (.act () rfl (.done _ _)))
  let s₀ : Threads (Fin 1) Shared Action Action.Result Outcome :=
    { shared := ⟨server, false⟩, thread := fun _ => handleClient pageRequest }
  have huntorn : ∀ g t g' t', ThreadsUntorn (s₀.go 0 g t) (s₀.go 0 g' t') := by
    intro g t g' t' i filePath next hread _ j cacheKey response next' hwrite
    rw [Subsingleton.elim j i, hread] at hwrite
    cases hwrite
  have h0 : ((servingFrom oneHit.cacheDir files₀ oneHit.request).within ThreadsUntorn).Reachable s₀ :=
    .init ⟨⟨⟨rfl, rfl⟩, rfl⟩, rfl⟩
  obtain ⟨s, h, hhit⟩ : ∃ s,
      ((servingFrom oneHit.cacheDir files₀ oneHit.request).within ThreadsUntorn).Reachable s ∧
        s.thread 0 = .done (.hit page) :=
    ⟨_, h0.leads (Threads.leads_within_of_runs hruns s₀ huntorn rfl rfl), Threads.go_self s₀ 0 _ _⟩
  obtain ⟨hrefines, hhits⟩ := threads_refine oneHit files₀ hfile
  exact ⟨s, h.of_within, hhit, (hhits s h).2 0 page hhit, hrefines s h.of_within⟩

end Proxy
