import ComputerNetworks.Lib.Checked
import ComputerNetworks.Lib.Duplex
import ComputerNetworks.Lib.Framed
import ComputerNetworks.Proxy.Reading

/-!
# Sending the response

`sendResponse`, and what has come to the client at any time: the front of one response.
-/

open Lib Lib.Bytes Lib.Crlf Lib.Duplex Lib.Fields Lib.Framed Lib.Number

namespace Proxy

/-! ## `sendResponse` -/

def sendGuard (total sent : Nat) : Turn Nat Nat := if sent < total then .next sent else .leave sent

/-- A `send` takes no more than it is given. Any error ends the loop. -/
def sendTurn (total sent : Nat) : SendResult → Turn Nat Nat
  | .interrupted => .leave sent
  | .failed => .leave sent
  | .sent n => sendGuard total (sent + min n (total - sent))

/-- `sendResponse`, as far as the results of `send` go: `sent` in the loop or behind it. -/
def sendResponse (response : Bytes) (sends : List SendResult) : Turn Nat Nat :=
  if response = [] then .leave 0
  else (sendGuard response.length 0).feed (sendTurn response.length) sends

def sentCount : Turn Nat Nat → Nat
  | .next sent => sent
  | .leave sent => sent

/-- What the client has. -/
def delivered (response : Bytes) (sends : List SendResult) : Bytes :=
  response.take (sentCount (sendResponse response sends))

/-- A `send` has given an error. -/
def Broken (sends : List SendResult) : Prop := .interrupted ∈ sends ∨ .failed ∈ sends

theorem Broken.append {sends : List SendResult} (h : Broken sends) (more : List SendResult) :
    Broken (sends ++ more) :=
  h.imp (List.mem_append_left more) (List.mem_append_left more)

theorem sendGuard_meets (total : Nat) {sent : Nat} (h : sent ≤ total) (P : Prop) :
    (sendGuard total sent).Meets (· < total) fun n => n ≤ total ∧ (n = total ∨ P) := by
  unfold sendGuard
  split
  · assumption
  · exact ⟨h, .inl (by omega)⟩

theorem sendResponse_meets (response : Bytes) (sends : List SendResult) :
    (sendResponse response sends).Meets (· < response.length)
      fun n => n ≤ response.length ∧ (n = response.length ∨ Broken sends) := by
  unfold sendResponse
  split
  · rename_i hempty
    rw [hempty]
    exact ⟨le_rfl, .inl rfl⟩
  · refine Turn.feed_meets (I := fun _ n => n < response.length)
      (Q := fun sends n => n ≤ response.length ∧ (n = response.length ∨ Broken sends)) ?_ ?_ sends []
      (sendGuard_meets response.length (Nat.zero_le _) (Broken []))
    · intro before sent r hlt
      have hmem : r ∈ before ++ [r] := List.mem_append_right before (List.mem_singleton_self r)
      cases r with
      | interrupted => exact ⟨hlt.le, .inr (.inl hmem)⟩
      | failed => exact ⟨hlt.le, .inr (.inr hmem)⟩
      | sent n =>
        exact sendGuard_meets response.length (by omega) _
    · rintro before r n ⟨hle, hend⟩
      exact ⟨hle, hend.imp_right fun hbroken => hbroken.append [r]⟩

theorem sendResponse_leaves {response : Bytes} {sends : List SendResult}
    (hsends : ∀ r ∈ sends, ∃ n, 0 < n ∧ r = .sent n) (hmany : response.length < sends.length) :
    sendResponse response sends = .leave response.length := by
  have hwhole : ¬ Broken sends := by
    rintro (hmem | hmem)
    · obtain ⟨n, -, hn⟩ := hsends _ hmem
      cases hn
    · obtain ⟨n, -, hn⟩ := hsends _ hmem
      cases hn
  have hleaves : ∃ n, sendResponse response sends = .leave n := by
    unfold sendResponse
    split
    · exact ⟨0, rfl⟩
    · rename_i hne
      have hguard : sendGuard response.length 0 = .next 0 := if_pos (List.length_pos_iff.mpr hne)
      rw [hguard]
      refine Turn.feed_leaves (fun sent => response.length - sent) ?_ (by omega)
      intro sent r hr
      obtain ⟨n, hpos, rfl⟩ := hsends r hr
      rw [sendTurn, sendGuard]
      split
      · change response.length - (sent + _) < response.length - sent
        omega
      · trivial
  obtain ⟨n, hn⟩ := hleaves
  have hmeets := sendResponse_meets response sends
  rw [hn] at hmeets ⊢
  rw [hmeets.2.resolve_right hwhole]

/-! ## Responses of the proxy itself -/

def errorMessage (statusCode : Int) (statusText message : Bytes) : Message where
  lines :=
    [ofString "HTTP/1.1 " ++ intText statusCode ++ space :: statusText,
      ofString "Content-Type: text/plain",
      ofString "Content-Length: " ++ natText message.length,
      ofString "Connection: close"]
  body := message

theorem createErrorResponse_eq (statusCode : Int) (statusText message : Bytes) :
    createErrorResponse statusCode statusText message = (errorMessage statusCode statusText message).text := by
  simp [createErrorResponse, errorMessage, Message.text, headerText]

theorem errorMessage_sized (statusCode : Int) {statusText : Bytes} (h : lf ∉ statusText) (message : Bytes) :
    (errorMessage statusCode statusText message).Sized := by
  have htype : Unsized (ofString "Content-Type: text/plain") := ⟨by decide, by decide, by decide⟩
  refine Message.sized_of_lines [_, _] rfl (fun l hl => ?_) fun l hl => ?_
  · rcases List.mem_pair.mp hl with rfl | rfl
    · exact unsized_status statusCode h
    · exact htype
  · rw [List.mem_singleton.mp hl]
    decide

/-- The proxy has made the response itself. -/
def Own (response : Bytes) : Prop :=
  ∃ statusCode statusText message, lf ∉ statusText ∧
    response = createErrorResponse statusCode statusText message

/-- Where a response can come from: the proxy, the origin, or a file of the cache. -/
inductive Source (world : World) (server : Server) (response : Bytes) : Prop where
  | own : Own response → Source world server response
  | origin (request : ParsedRequest) (results : List RecvResult) :
      exchange world.net request = .ok results → response = readFullResponse [] results →
      Source world server response
  | cache (path : Bytes) : openRead server.files world.openings.response path = some response →
      Source world server response

theorem own_refusal {request : ParsedRequest} {response : Bytes} (h : refusal request = some response) :
    Own response := by
  unfold refusal at h
  split_ifs at h
  · exact ⟨400, _, _, by decide, (Option.some.inj h).symm⟩
  · exact ⟨501, _, _, by decide, (Option.some.inj h).symm⟩
  · exact ⟨400, _, _, by decide, (Option.some.inj h).symm⟩

theorem own_internal (message : Bytes) :
    Own (createErrorResponse 500 (ofString "Internal Server Error") message) :=
  ⟨500, _, _, by decide, rfl⟩

theorem source_orInternalError {world : World} {server : Server} {response : Bytes}
    (h : response ≠ [] → Source world server response) :
    Source world server (orInternalError response) := by
  unfold orInternalError
  split
  · exact .own (own_internal _)
  · rename_i hne
    exact h hne

theorem source_fetch (world : World) (server : Server) (request : ParsedRequest) :
    Source world server (fetchFromServer world.net request) := by
  unfold fetchFromServer
  split
  · exact .own ⟨502, _, _, by decide, rfl⟩
  · rename_i results hexchange
    dsimp only
    split
    · exact .own ⟨502, _, _, by decide, rfl⟩
    · exact .origin request results hexchange rfl

theorem orInternalError_ne_nil (response : Bytes) : orInternalError response ≠ [] := by
  unfold orInternalError
  split
  · exact createErrorResponse_ne_nil _ _ _
  · assumption

theorem source_lookup {world : World} {server : Server} {cacheDir response : Bytes} {request : ParsedRequest}
    (h : lookup server.files world.openings cacheDir request = .ok (some response)) :
    Source world server response := by
  unfold lookup at h
  dsimp only at h
  split at h
  · split at h
    · cases h
    · rename_i entry _
      split at h
      · exact .cache entry.filePath (Except.ok.inj h)
      · cases h
  · cases h

theorem handleParsed_source (cacheDir : Bytes) (world : World) (server : Server) (request : ParsedRequest) :
    (handleParsed cacheDir world server request).response ≠ [] ∧
      Source world server (handleParsed cacheDir world server request).response := by
  unfold handleParsed
  cases hrefusal : refusal request with
  | some response =>
    obtain ⟨statusCode, statusText, message, hplain, rfl⟩ := own_refusal hrefusal
    exact ⟨createErrorResponse_ne_nil _ _ _, .own ⟨statusCode, statusText, message, hplain, rfl⟩⟩
  | none =>
    dsimp only
    rw [Server.updateStats_files]
    cases hlookup : lookup server.files world.openings cacheDir request with
    | error what => exact ⟨createErrorResponse_ne_nil _ _ _, .own (own_internal _)⟩
    | ok found =>
      cases found with
      | some response =>
        exact ⟨orInternalError_ne_nil _, source_orInternalError fun _ => source_lookup hlookup⟩
      | none =>
        exact ⟨orInternalError_ne_nil _, source_orInternalError fun _ => source_fetch _ _ _⟩

theorem handleSocket_source {cacheDir : Bytes} {world : World} {server : Server} {pieces : List Bytes}
    {handled : Handled} (h : handleSocket cacheDir world server pieces = some handled) :
    handled.response ≠ [] ∧ Source world server handled.response := by
  unfold handleSocket at h
  split at h
  · obtain rfl := Option.some.inj h
    exact ⟨createErrorResponse_ne_nil _ _ _, .own (own_internal _)⟩
  · cases h
  · obtain rfl := Option.some.inj h
    exact handleParsed_source _ _ _ _

/-! ## The client -/

/-- **Delivery.** A connection that has sent anything gets one response: one of the proxy, of the origin, which
was given the text that is sent on, or of the cache. Whatever `send` gives, the client has a front of it, and
all of it unless a `send` has failed or is still under way. Of a response of the proxy, a client that goes by
the content length finds the message when it is all there, and knows before that it is not. -/
theorem response_delivery (cacheDir : Bytes) (world : World) (server : Server) (piece : Bytes)
    (pieces : List Bytes) (hpiece : piece ≠ []) :
    ∃ handled, handleSocket cacheDir world server (piece :: pieces) = some handled ∧
    Source world server handled.response ∧
    (∀ text, forwarded (piece :: pieces) = some text → handled.fetched = true →
      ∃ request, requestText request = text ∧
        handled.response = orInternalError (fetchFromServer world.net request)) ∧
    (∀ sends, delivered handled.response sends <+: handled.response ∧
      (∀ n, sendResponse handled.response sends = .leave n →
        delivered handled.response sends = handled.response ∨ Broken sends) ∧
      ((∀ r ∈ sends, ∃ n, 0 < n ∧ r = .sent n) → handled.response.length < sends.length →
        delivered handled.response sends = handled.response)) ∧
    ∀ statusCode statusText message, lf ∉ statusText →
      handled.response = createErrorResponse statusCode statusText message → ∀ sends,
        readMessage (delivered handled.response sends) =
          if delivered handled.response sends = handled.response then
            some (errorMessage statusCode statusText message, [])
          else none := by
  obtain ⟨handled, h⟩ := handleSocket_some cacheDir world server hpiece pieces
  obtain ⟨hne, hsource⟩ := handleSocket_source h
  refine ⟨handled, h, hsource, fun text htext hfetched => ?_,
    fun sends => ⟨List.take_prefix _ _, fun n hn => ?_, fun hsends hmany => ?_⟩, ?_⟩
  · obtain ⟨request, handled', hrequest, hhandled, hfetch⟩ :=
      handleSocket_forwarded htext cacheDir world server
    obtain rfl := Option.some.inj (h.symm.trans hhandled)
    exact ⟨request, hrequest, hfetch hfetched⟩
  · have hmeets := sendResponse_meets handled.response sends
    rw [delivered, hn]
    rw [hn] at hmeets
    exact hmeets.2.imp_left fun heq => by rw [sentCount, heq, List.take_length]
  · rw [delivered, sendResponse_leaves hsends hmany, sentCount, List.take_length]
  · intro statusCode statusText message hplain hown sends
    rw [createErrorResponse_eq] at hown
    have hwhole : delivered handled.response sends = handled.response ↔
        handled.response.length ≤ sentCount (sendResponse handled.response sends) :=
      List.take_eq_self_iff _
    rw [if_congr hwhole rfl rfl, delivered, hown]
    exact (errorMessage_sized statusCode hplain message).readMessage_received _

/-- A request without a host, and a connection that breaks within the response. -/
theorem missing_host_delivery :
    let world : World := ⟨.all, .giving [], 0⟩
    let server : Server := ⟨fun _ => none, ⟨0, 0, 0, 0⟩⟩
    ∃ handled, handleSocket (ofString "c") world server [ofString "GET / HTTP/1.0\r\n\r\n"] = some handled ∧
      readMessage (delivered handled.response [.sent 20, .failed]) = none ∧
      readMessage (delivered handled.response [.sent 20, .sent 200]) =
        some (errorMessage 400 (ofString "Bad Request") (ofString "Host header is missing"), []) := by
  intro world server
  let response := createErrorResponse 400 (ofString "Bad Request") (ofString "Host header is missing")
  have hhandled : handleSocket (ofString "c") world server [ofString "GET / HTTP/1.0\r\n\r\n"] =
      some ⟨server, response, false⟩ := by
    have hread : readRequest [ofString "GET / HTTP/1.0\r\n\r\n"] =
        .ok (some (ofString "GET / HTTP/1.0\r\n\r\n")) := by decide +kernel
    have hrefusal : refusal (parseRequest (ofString "GET / HTTP/1.0\r\n\r\n")) = some response := by
      decide +kernel
    rw [handleSocket, hread]
    dsimp only
    rw [handleParsed, hrefusal]
  obtain ⟨handled, h, -, -, -, hown⟩ := response_delivery (ofString "c") world server
    (ofString "GET / HTTP/1.0\r\n\r\n") [] (by decide)
  obtain rfl := Option.some.inj (h.symm.trans hhandled)
  refine ⟨_, hhandled, ?_, ?_⟩
  · rw [hown 400 _ _ (by decide) rfl, if_neg (by decide +kernel)]
  · rw [hown 400 _ _ (by decide) rfl, if_pos (by decide +kernel)]

end Proxy
