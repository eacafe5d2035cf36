import ComputerNetworks.Lib.Framed
import ComputerNetworks.Web.Server

/-!
# What a client makes of a response

`HttpResponse::toString` as a message with a content length. `write` may take only the front of it.
-/

open Lib Lib.Bytes Lib.Crlf Lib.Fields Lib.Framed Lib.Number Lib.Pieces

namespace Web

def HttpResponse.message (response : HttpResponse) : Message where
  lines :=
    [ofString "HTTP/1.1 " ++ intText response.statusCode ++ space :: reason response.statusCode,
      ofString "Content-Type: " ++ response.contentType,
      ofString "Content-Length: " ++ natText response.body.length]
  body := response.body

theorem toString_eq (response : HttpResponse) : response.toString = response.message.text := by
  simp [HttpResponse.toString, HttpResponse.message, Message.text, headerText]

theorem lf_notMem_reason (statusCode : Int) : lf ∉ reason statusCode := by
  unfold reason
  split
  · decide
  · split
    · decide
    · decide

theorem unsized_contentType {contentType : Bytes} (h : lf ∉ contentType) :
    Unsized (ofString "Content-Type: " ++ contentType) where
  plain := by
    have hname : lf ∉ ofString "Content-Type: " := by decide
    rw [List.mem_append]
    exact fun hmem => hmem.elim hname h
  nonempty := List.cons_ne_nil _ _
  noLength := by
    have hsplit : ofString "Content-Type: " ++ contentType =
        ofString "Content-Type" ++ colon :: (space :: contentType) := by
      have hname : ofString "Content-Type: " = ofString "Content-Type" ++ [colon, space] := rfl
      rw [hname, List.append_assoc]
      rfl
    rw [hsplit, fieldOf_append (by decide), if_neg (by decide)]

theorem message_sized {response : HttpResponse} (h : lf ∉ response.contentType) :
    response.message.Sized := by
  refine Message.sized_of_lines [_, _] rfl (fun l hl => ?_) fun l hl => absurd hl List.not_mem_nil
  rcases List.mem_pair.mp hl with rfl | rfl
  · exact unsized_status response.statusCode (lf_notMem_reason _)
  · exact unsized_contentType h

theorem handleRequest_contentType (publicDir : Bytes) (files : Files) (request : HttpRequest) :
    lf ∉ (handleRequest publicDir files request).contentType := by
  rcases handleRequest_cases publicDir files request with h | ⟨content, h⟩
  · rw [h]
    decide
  · rw [h]
    change lf ∉ ofString "text/html"
    decide

/-- The request that is answered. -/
def received (pieces : List Bytes) : HttpRequest := parseRequest (cString (recv 4095 pieces).1)

/-- **Framing.** Whatever was asked for: a client that goes by the content length finds the body of the
response in what was written, with anything behind it; and of a part of it, it knows that it is one. -/
theorem response_framing (publicDir : Bytes) (files : Files) (pieces : List Bytes) (written : Bytes)
    (h : handleClient publicDir files pieces = some written) :
    ∃ message : Message, message.body = (handleRequest publicDir files (received pieces)).body ∧
      (∀ rest, readMessage (written ++ rest) = some (message, rest)) ∧
      ∀ n, readMessage (written.take n) = if written.length ≤ n then some (message, []) else none := by
  unfold handleClient at h
  dsimp only at h
  split at h
  · cases h
  · have hsized := message_sized (handleRequest_contentType publicDir files (received pieces))
    have hwritten := toString_eq (handleRequest publicDir files (received pieces))
    obtain rfl := Option.some.inj h
    refine ⟨(handleRequest publicDir files (received pieces)).message, rfl, fun rest => ?_, fun n => ?_⟩
    · exact hwritten ▸ hsized.readMessage_text rest
    · exact hwritten ▸ hsized.readMessage_received n

theorem response_framing_twice :
    let files : Files := fun _ => some (ofString "<p>")
    ∃ written message, handleClient (ofString "d") files [ofString "GET / HTTP/1.1"] = some written ∧
      message.body = ofString "<p>" ∧ readMessage (written ++ written) = some (message, written) := by
  intro files
  have hwritten : handleClient (ofString "d") files [ofString "GET / HTTP/1.1"] =
      some (ok (ofString "<p>")).toString := by decide +kernel
  obtain ⟨message, hbody, hread, -⟩ := response_framing (ofString "d") files _ _ hwritten
  refine ⟨_, message, hwritten, hbody.trans ?_, hread _⟩
  decide +kernel

end Web
