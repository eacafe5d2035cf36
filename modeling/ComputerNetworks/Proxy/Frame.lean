import ComputerNetworks.Proxy.Handle

/-!
# What enters the cache

Requests with other methods than `GET`, and responses that were cut off, are kept as any other.
-/

open Lib Lib.Bytes

namespace Proxy

theorem refusal_ne_none_iff (request : ParsedRequest) :
    refusal request ≠ none ↔
      request.method = [] ∨ request.method = ofString "CONNECT" ∨ request.host = [] := by
  rw [ne_eq, refusal_eq_none_iff, not_and_or, not_and_or, not_not, not_not, not_not]

/-! ## Other methods -/

/-- **Failed fetches.** When the last `recv` fails, the files are left as they are exactly when the
request is refused or ends at the cache, when what came before the failure has another status than
200, when the response file cannot be opened, or when the files have all of this already. -/
theorem failed_fetch_files_iff (cacheDir : Bytes) (world : World) (server : Server)
    (request : ParsedRequest) {chunks : List Bytes} (hchunks : ∀ chunk ∈ chunks, chunk ≠ [])
    (hrecv : exchange world.net request = .ok (chunks.map .data ++ [.error])) :
    (handleParsed cacheDir world server request).server.files = server.files ↔
      (request.method = [] ∨ request.method = ofString "CONNECT" ∨ request.host = []) ∨
        EndsAtCache server.files world.openings cacheDir request ∨
        extractStatusCode chunks.flatten ≠ 200 ∨
        world.openings.save = false ∨
        Holds server.files world.openings cacheDir request chunks.flatten world.time := by
  have hread : readFullResponse [] (chunks.map .data ++ [.error]) = chunks.flatten :=
    readFullResponse_eq hchunks (by decide) [] []
  have hstatus := extractStatusCode_fetchFromServer hrecv
  rw [hread] at hstatus
  rw [handleParsed_files_iff, refusal_ne_none_iff]
  by_cases h200 : extractStatusCode chunks.flatten = 200
  · -- Then something came, and this is what is kept.
    have hfetch : fetchFromServer world.net request = chunks.flatten := by
      rw [fetchFromServer, hrecv]
      dsimp only
      rw [hread, if_neg]
      intro hempty
      rw [hempty] at h200
      cases h200
    rw [hfetch]
  · simp only [ne_eq, hstatus, h200, not_false_eq_true, true_or, or_true]

theorem reset_at_once :
    let request := parseRequest (ofString "GET http://h/p HTTP/1.1\r\n\r\n")
    let world : World := { openings := .all, net := .giving [.error], time := 0 }
    let server : Server := { files := fun _ => none, stats := ⟨0, 0, 0, 0⟩ }
    (handleParsed (ofString "./cache") world server request).server.files = server.files := by
  have hchunks : ∀ chunk ∈ ([] : List Bytes), chunk ≠ [] := by simp
  refine (failed_fetch_files_iff _ _ _ _ hchunks rfl).mpr ?_
  exact Or.inr (Or.inr (Or.inl (by decide)))

/-- A response that is cut off in its body is kept, and answers the next `GET`. -/
theorem cut_off_response_kept :
    let request := parseRequest (ofString "GET http://h/p HTTP/1.1\r\n\r\n")
    let half := ofString "HTTP/1.1 200 OK\r\nContent-Length: 2\r\n\r\nh"
    let world : World := { openings := .all, net := .giving [.data half, .error], time := 0 }
    let server : Server := { files := fun _ => none, stats := ⟨0, 0, 0, 0⟩ }
    let handled := handleParsed (ofString "./cache") world server request
    let later := handleParsed (ofString "./cache") world handled.server request
    exchange world.net request = .ok ([half].map .data ++ [.error]) ∧
      handled.server.files ≠ server.files ∧ later.response = half ∧ later.fetched = false := by
  refine ⟨rfl, fun h => ?_, by decide, by decide⟩
  have hfile := congrFun h (ofString "./cache/h_80_p")
  revert hfile
  decide

end Proxy
