import ComputerNetworks.Proxy.Interleaved

/-!
# Hits at the same time as saves

A cache hit reads the response file without the mutex. What it sends is whole when no save is in the
middle of the file.
-/

universe u

open Lib Lib.Bytes

namespace Proxy

variable {ι : Type u} [DecidableEq ι]

/-! ## What makes a hit -/

/-- No run reads the response file while another one is between its truncating open and its
write. -/
def ReadsUntorn (s t : State ι) : Prop :=
  ∀ i filePath, s.phase i = .opened filePath → t.phase i ≠ .opened filePath → s.Untorn

theorem afterEntry_ne_hit (entry : Option CacheEntry) (response : Bytes) :
    afterEntry entry ≠ .sent response true := by
  cases entry with
  | none => simp [afterEntry]
  | some entry =>
    rw [afterEntry]
    split <;> simp

theorem afterFetch_ne_hit (fetched response : Bytes) :
    afterFetch fetched ≠ .sent response true := by
  unfold afterFetch
  split <;> simp

theorem Step.moves {c : Runs ι} {s t : State ι} (hst : Step c s t) :
    ∃ i phase, t.phase = (s.move i phase).phase ∧
      (∀ response, phase = .sent response true → ∃ filePath, s.phase i = .opened filePath) ∧
      ∀ filePath, s.phase i = .opened filePath →
        phase = .sent (orInternalError ((s.files filePath).getD [])) true := by
  cases hst with
  | refuse hp _ => exact ⟨_, _, rfl, by simp, by simp [hp]⟩
  | skip hp _ _ => exact ⟨_, _, rfl, by simp, by simp [hp]⟩
  | check opens hp _ _ _ =>
    exact ⟨_, _, rfl, by split <;> simp, by simp [hp]⟩
  | entry opens hp _ =>
    exact ⟨_, _, rfl, fun response h => absurd h (afterEntry_ne_hit _ response),
      by simp [hp]⟩
  | openFile opens hp =>
    exact ⟨_, _, rfl, by split <;> simp, by simp [hp]⟩
  | @read i filePath hp =>
    refine ⟨_, _, rfl, fun _ _ => ⟨filePath, hp⟩, fun filePath' hp' => ?_⟩
    rw [hp] at hp'
    rw [Phase.opened.inj hp']
  | fetch net hp =>
    exact ⟨_, _, rfl, fun response h => absurd h (afterFetch_ne_hit _ response),
      by simp [hp]⟩
  | saveFails hp _ => exact ⟨_, _, rfl, by simp, by simp [hp]⟩
  | truncate hp _ => exact ⟨_, _, rfl, by simp, by simp [hp]⟩
  | write hp => exact ⟨_, _, rfl, by simp, by simp [hp]⟩
  | saveMetadata opens time hp => exact ⟨_, _, rfl, by simp, by simp [hp]⟩

theorem Step.stored {c : Runs ι} {s t : State ι} (hst : Step c s t) : s.stored ⊆ t.stored := by
  cases hst with
  | write _ => exact List.subset_cons_self _ _
  | _ => exact List.Subset.refl _

/-! ## The invariant of hits -/

def State.HitsStored (s : State ι) : Prop :=
  ∀ i response, s.phase i = .sent response true → response ∈ s.stored

theorem hits_step {c : Runs ι} {s t : State ι} (hs : s.Sound c) (h : s.HitsStored)
    (hst : Step c s t) (hread : ReadsUntorn s t) : t.HitsStored := by
  intro i response hnew
  obtain ⟨j, phase, hphase, hopened, hsent⟩ := hst.moves
  by_cases hij : i = j
  · subst hij
    have hnew' : phase = .sent response true := by
      rw [← hnew, hphase, State.move_self]
    obtain ⟨filePath, hp⟩ := hopened response hnew'
    have huntorn : s.Untorn := hread i filePath hp (by simp [hnew])
    obtain ⟨rfl, hsome⟩ := hs.fits_of hp
    obtain ⟨text, htext⟩ := Option.isSome_iff_exists.mp hsome
    have hmem := hs.file huntorn text htext
    have hne : text ≠ [] := by
      rintro rfl
      cases hs.stored [] hmem
    -- The text that is read is the response.
    have hresponse := hnew'.symm.trans (hsent c.filePath hp)
    rw [htext, Option.getD_some, orInternalError, if_neg hne] at hresponse
    rw [(Phase.sent.inj hresponse).1]
    exact hst.stored hmem
  · rw [hphase, State.move_of_ne s hij] at hnew
    exact hst.stored (h i response hnew)

theorem hits_stored {c : Runs ι} {s : State ι}
    (h : ((handling c).within ReadsUntorn).Reachable s) : s.HitsStored := by
  refine h.invariant (J := State.Sound c) (fun _ hr => reachable_sound hr.of_within) ?_ ?_
  · intro s h0 i response hsent
    rw [h0.phase i] at hsent
    cases hsent
  · rintro s t hs - ih ⟨hst, hread⟩
    exact hits_step hs ih hst hread

omit [DecidableEq ι] in
theorem internalError_not_stored {c : Runs ι} {s : State ι} (hs : s.Sound c)
    (message : Bytes) :
    createErrorResponse 500 (ofString "Internal Server Error") message ∉ s.stored := by
  intro hmem
  have hstatus := hs.stored _ hmem
  rw [extractStatusCode_createErrorResponse (by decide)] at hstatus
  cases hstatus

theorem torn_read {c : Runs ι} {s t : State ι} (hs : s.Sound c) (hst : Step c s t)
    (htorn : ¬ReadsUntorn s t) : ∃ i, t.phase i = .sent (orInternalError []) true := by
  unfold ReadsUntorn State.Untorn at htorn
  push Not at htorn
  obtain ⟨i, filePath, hp, hmoved, j, response, hj⟩ := htorn
  obtain ⟨k, phase, hphase, -, hsent⟩ := hst.moves
  have hik : i = k := by
    by_contra hne
    rw [hphase, State.move_of_ne s hne] at hmoved
    exact hmoved hp
  subst hik
  obtain ⟨hpath, -⟩ := hs.fits_of hp
  obtain ⟨-, -, hempty⟩ := hs.fits_of hj
  refine ⟨i, ?_⟩
  rw [hphase, State.move_self, hsent filePath hp, hpath, hempty, Option.getD_some]

/-! ## The theorem -/

/-- **Hits are whole.** While no run reads the response file between the truncating open and the write
of another one, every hit is sent a response that was stored. A step that does so sends the response
of status 500. -/
theorem hits_whole (c : Runs ι) :
    (∀ s, ((handling c).within ReadsUntorn).Reachable s →
      ∀ i response, s.phase i = .sent response true →
        response ∈ s.stored ∧ response ≠ [] ∧
          response ≠ createErrorResponse 500 (ofString "Internal Server Error")
            (ofString "Proxy server error")) ∧
    ∀ s t, (handling c).Reachable s → Step c s t → ¬ReadsUntorn s t →
      ∃ i response, t.phase i = .sent response true ∧ response ∉ t.stored ∧
        response = createErrorResponse 500 (ofString "Internal Server Error")
          (ofString "Proxy server error") := by
  refine ⟨fun s h i response hsent => ?_, fun s t h hst htorn => ?_⟩
  · have hs := reachable_sound h.of_within
    have hmem := hits_stored h i response hsent
    refine ⟨hmem, ?_, ?_⟩
    · rintro rfl
      cases hs.stored [] hmem
    · rintro rfl
      exact internalError_not_stored hs _ hmem
  · obtain ⟨i, hi⟩ := torn_read (reachable_sound h) hst htorn
    exact ⟨i, _, hi, internalError_not_stored (sound_step (reachable_sound h) hst) _, rfl⟩

def onePage : Runs (Fin 3) where
  cacheDir := ofString "./cache"
  cacheKey := ofString "h:80/p"
  request _ := parseRequest (ofString "GET http://h/p HTTP/1.1\r\n\r\n")
  key _ := by decide

def page : Bytes := ofString "HTTP/1.1 200 OK\r\n\r\nA"

def pageOrigin : Net := .giving [.data page, .data []]

/-- Two misses save the page, and a hit reads the file that the second one has just truncated. -/
theorem onePage_torn :
    ∃ s, (handling onePage).Reachable s ∧
      s.phase 2 = .sent (createErrorResponse 500 (ofString "Internal Server Error")
        (ofString "Proxy server error")) true ∧
      createErrorResponse 500 (ofString "Internal Server Error")
        (ofString "Proxy server error") ∉ s.stored := by
  have h0 : (handling onePage).Reachable
      { files := fun _ => none, lock := none, phase := fun _ => .started, stored := [] } :=
    .init ⟨rfl, fun _ => rfl, by simp, by simp⟩
  -- Two requests find nothing, and ask the origin.
  have h1 := h0.step (Step.check (i := 0) true rfl (by decide) (by decide) rfl)
  have h2 := h1.step (Step.check (i := 1) true rfl (by decide) (by decide) rfl)
  have h3 := h2.step (Step.fetch (i := 0) pageOrigin (by decide))
  have h4 := h3.step (Step.fetch (i := 1) pageOrigin (by decide))
  -- The first one saves the page, and the third request finds and opens it.
  have h5 := h4.step (Step.truncate (i := 0) (show _ = Phase.storing page by decide) rfl)
  have h6 := h5.step (Step.write (i := 0) (show _ = Phase.truncated page by decide))
  have h7 := h6.step (Step.saveMetadata (i := 0) true 0 (show _ = Phase.written page by decide))
  have h8 := h7.step (Step.check (i := 2) true (by decide) (by decide) (by decide) rfl)
  have h9 := h8.step (Step.entry (i := 2) true (by decide) rfl)
  have h10 := h9.step (Step.openFile (i := 2) true
    (show _ = Phase.found onePage.filePath by decide))
  -- The second one truncates the file, and the third one reads it.
  have h11 := h10.step (Step.truncate (i := 1) (show _ = Phase.storing page by decide) rfl)
  have h12 := h11.step (Step.read (i := 2) (show _ = Phase.opened onePage.filePath by decide))
  exact ⟨_, h12, by decide, by decide⟩

end Proxy
