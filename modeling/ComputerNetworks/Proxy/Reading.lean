import ComputerNetworks.Lib.Pieces
import ComputerNetworks.Proxy.Boundary

/-!
# Reading a request

The two reads of `handleClient`: a loop up to the end of the headers, and one `recv` for what is missing
of a body. The client's stream comes in pieces.
-/

open Lib Lib.Bytes Lib.Crlf Lib.Ctype Lib.Number Lib.Pieces

namespace Proxy

/-! ## The model -/

def bufferSize : Nat := 8192

/-- The first loop, where `read` is in the buffer. Behind the last piece, `recv` gives nothing. -/
def readHeaders (read : Bytes) : List Bytes → Bytes × List Bytes
  | [] => (read, [])
  | piece :: pieces =>
    let received := recv (bufferSize - read.length - 1) (piece :: pieces)
    let buffer := read ++ received.1
    if received.1 = [] then (read, received.2)
    else if crlf ++ crlf <:+: buffer then (buffer, received.2)
    else if bufferSize - 1 ≤ buffer.length then (buffer, received.2)
    -- There is room left, so the piece was read to its end.
    else readHeaders buffer pieces

/-- The text of the request with what is read of its body, or the text of an exception. -/
def readBody (rawRequest : Bytes) (pieces : List Bytes) : Except Bytes Bytes :=
  let request := parseRequest rawRequest
  if request.method = ofString "POST" then
    match request.headers.find? (ofString "content-length") with
    | none => .ok rawRequest
    | some value =>
      match stoi value with
      | none => .error (ofString "stoi")
      | some contentLength =>
        if 0 < contentLength then
          match readUntil (crlf ++ crlf) rawRequest with
          | none => .ok rawRequest
          | some (_, body) =>
            if (body.length : Int) < contentLength then
              .ok (rawRequest ++ (recv (contentLength.toNat - body.length) pieces).1)
            else .ok rawRequest
        else .ok rawRequest
  else .ok rawRequest

/-- What `handleClient` parses, or `none` when nothing came. -/
def readRequest (pieces : List Bytes) : Except Bytes (Option Bytes) :=
  let headers := readHeaders [] pieces
  if headers.1 = [] then .ok none
  else (readBody headers.1 headers.2).map some

/-- `handleClient`, from its socket on. -/
def handleSocket (cacheDir : Bytes) (world : World) (server : Server) (pieces : List Bytes) :
    Option Handled :=
  match readRequest pieces with
  | .error what =>
    some
      { server := server.updateStats false true
        response := createErrorResponse 500 (ofString "Internal Server Error")
          (ofString "Proxy server error: " ++ what)
        fetched := false }
  | .ok none => none
  | .ok (some rawRequest) => some (handleParsed cacheDir world server (parseRequest rawRequest))

/-- The text that is sent on to the origin, unless the request is refused. -/
def forwarded (pieces : List Bytes) : Option Bytes :=
  match readRequest pieces with
  | .ok (some rawRequest) =>
    if refusal (parseRequest rawRequest) = none then some (requestText (parseRequest rawRequest))
    else none
  | _ => none

theorem handleSocket_forwarded {pieces : List Bytes} {text : Bytes} (h : forwarded pieces = some text)
    (cacheDir : Bytes) (world : World) (server : Server) :
    ∃ request handled, requestText request = text ∧
      handleSocket cacheDir world server pieces = some handled ∧
      (handled.fetched = true →
        handled.response = orInternalError (fetchFromServer world.net request)) := by
  unfold forwarded at h
  split at h
  · rename_i rawRequest hread
    split at h
    · rename_i hrefusal
      refine ⟨parseRequest rawRequest, _, Option.some.inj h, by rw [handleSocket, hread], ?_⟩
      rw [handleParsed, hrefusal]
      dsimp only
      split
      · exact fun hfetched => Bool.noConfusion hfetched
      · exact fun hfetched => Bool.noConfusion hfetched
      · exact fun _ => rfl
    · cases h
  · cases h

/-! ## The headers -/

theorem mark_infix_iff {head body front : Bytes} (hhead : Closes (crlf ++ crlf) head)
    (hfront : front <+: head ++ body) : crlf ++ crlf <:+: front ↔ head.length ≤ front.length := by
  constructor
  · intro hmark
    by_contra hlt
    have hshort : front <+: head.dropLast := by
      rw [List.dropLast_eq_take]
      have hpiece : front <+: head := List.prefix_of_prefix_length_le hfront
        (List.prefix_append head body) (by omega)
      rw [List.prefix_take_iff]
      exact ⟨hpiece, by omega⟩
    exact hhead.fresh (hmark.trans hshort.isInfix)
  · intro hle
    have hpiece := List.prefix_of_prefix_length_le (List.prefix_append head body) hfront hle
    exact hhead.ends.isInfix.trans hpiece.isInfix

theorem readHeaders_kept (read : Bytes) (pieces : List Bytes) : read <+: (readHeaders read pieces).1 := by
  induction read, pieces using readHeaders.induct with
  | case1 read => exact List.prefix_refl read
  | case2 read piece pieces received hnil =>
    rw [readHeaders, if_pos hnil]
  | case3 read piece pieces received buffer hne hmark =>
    rw [readHeaders, if_neg hne, if_pos hmark]
    exact List.prefix_append read _
  | case4 read piece pieces received buffer hne hmark hfull =>
    rw [readHeaders, if_neg hne, if_neg hmark, if_pos hfull]
    exact List.prefix_append read _
  | case5 read piece pieces received buffer hne hmark hroom ih =>
    rw [readHeaders, if_neg hne, if_neg hmark, if_neg hroom]
    exact (List.prefix_append read _).trans ih

theorem readHeaders_ne_nil {piece : Bytes} (h : piece ≠ []) (pieces : List Bytes) :
    (readHeaders [] (piece :: pieces)).1 ≠ [] := by
  have hreceived : (recv (bufferSize - 0 - 1) (piece :: pieces)).1 ≠ [] := by
    rw [recv, ne_eq, List.take_eq_nil_iff]
    exact fun hnil => hnil.elim (by decide) h
  have hgrows : ∀ {buffer result : Bytes}, buffer ≠ [] → buffer <+: result → result ≠ [] :=
    fun hne hpre hnil => hne (List.prefix_nil.mp (hnil ▸ hpre))
  rw [readHeaders]
  dsimp only [List.length_nil, List.nil_append]
  rw [if_neg hreceived]
  split
  · exact hreceived
  · split
    · exact hreceived
    · exact hgrows hreceived (readHeaders_kept _ pieces)

theorem handleSocket_some (cacheDir : Bytes) (world : World) (server : Server) {piece : Bytes}
    (h : piece ≠ []) (pieces : List Bytes) :
    ∃ handled, handleSocket cacheDir world server (piece :: pieces) = some handled := by
  unfold handleSocket
  rw [readRequest]
  rw [if_neg (readHeaders_ne_nil h pieces)]
  cases readBody (readHeaders [] (piece :: pieces)).1 (readHeaders [] (piece :: pieces)).2 with
  | error what => exact ⟨_, rfl⟩
  | ok rawRequest => exact ⟨_, rfl⟩

theorem readHeaders_stop {read piece : Bytes} {pieces : List Bytes} {received : Bytes × List Bytes}
    (hreceived : recv (bufferSize - read.length - 1) (piece :: pieces) = received)
    (hne : received.1 ≠ []) (hmark : crlf ++ crlf <:+: read ++ received.1) :
    readHeaders read (piece :: pieces) = (read ++ received.1, received.2) := by
  rw [readHeaders]
  simp only [hreceived]
  rw [if_neg hne, if_pos hmark]

theorem readHeaders_more {read piece : Bytes} (pieces : List Bytes) (hne : piece ≠ [])
    (hroom : (read ++ piece).length < bufferSize - 1) (hmark : ¬crlf ++ crlf <:+: read ++ piece) :
    readHeaders read (piece :: pieces) = readHeaders (read ++ piece) pieces := by
  have hfits : piece.length ≤ bufferSize - read.length - 1 := by
    rw [List.length_append] at hroom
    omega
  have hreceived : recv (bufferSize - read.length - 1) (piece :: pieces) = (piece, pieces) := by
    rw [recv, List.take_of_length_le hfits, if_pos hfits]
  rw [readHeaders]
  simp only [hreceived]
  rw [if_neg hne, if_neg hmark, if_neg (by omega)]

theorem readHeaders_spec {head body : Bytes} (hhead : Closes (crlf ++ crlf) head)
    (hfits : head.length < bufferSize) {front : List Bytes} (piece : Bytes) (back : List Bytes) :
    ∀ read, (∀ p ∈ front, p ≠ []) → read ++ (front ++ piece :: back).flatten = head ++ body →
      (read ++ front.flatten).length < head.length →
      head.length ≤ (read ++ front.flatten ++ piece).length →
      let room := bufferSize - (read ++ front.flatten).length - 1
      readHeaders read (front ++ piece :: back) =
        (read ++ front.flatten ++ piece.take room, (recv room (piece :: back)).2) := by
  induction front with
  | nil =>
    -- This piece brings the end of the head into the buffer.
    intro read _ hstream hlt hle
    rw [List.nil_append, List.flatten_cons] at hstream
    rw [List.flatten_nil, List.append_nil] at hlt hle ⊢
    rw [List.length_append] at hle
    intro room
    have hlength : head.length ≤ (read ++ piece.take room).length := by
      rw [List.length_append, List.length_take]
      omega
    have hpiece : read ++ piece.take room <+: head ++ body := by
      rw [← hstream]
      exact (List.prefix_append_right_inj read).mpr
        ((List.take_prefix room piece).trans (List.prefix_append piece _))
    have hne : piece.take room ≠ [] := by
      intro hnil
      rw [hnil, List.append_nil] at hlength
      omega
    exact readHeaders_stop rfl hne ((mark_infix_iff hhead hpiece).mpr hlength)
  | cons p front ih =>
    intro read hne hstream hlt hle
    have hflat : read ++ (p :: front).flatten = read ++ p ++ front.flatten := by
      rw [List.flatten_cons, List.append_assoc]
    rw [hflat] at hlt hle ⊢
    have hstream' : read ++ p ++ (front ++ piece :: back).flatten = head ++ body := by
      rw [← hstream, List.cons_append, List.flatten_cons, List.append_assoc]
    have hshort : (read ++ p).length < head.length := by
      rw [List.length_append] at hlt
      omega
    have hmark : ¬crlf ++ crlf <:+: read ++ p := by
      rw [mark_infix_iff hhead (hstream' ▸ List.prefix_append _ _)]
      omega
    rw [List.cons_append, readHeaders_more _ (hne p List.mem_cons_self) (by omega) hmark]
    exact ih (read ++ p) (fun q hq => hne q (List.mem_cons_of_mem p hq)) hstream' hlt hle

/-! ## The body -/

/-- The head of a `POST` with a body of `n` bytes, up to the blank line and with it. -/
structure PostHead (head : Bytes) (n : Nat) : Prop where
  closes : Closes (crlf ++ crlf) head
  fits : head.length < bufferSize
  method : (parseRequest head).method = ofString "POST"
  host : (parseRequest head).host ≠ []
  contentLength : ∃ value,
    (parseRequest head).headers.find? (ofString "content-length") = some value ∧ value ≠ [] ∧
      (∀ c ∈ value, isdigit c = true) ∧ digitsValue value = n
  small : n < 2 ^ 31

theorem PostHead.parseRequest_append {head : Bytes} {n : Nat} (h : PostHead head n) (rest : Bytes) :
    parseRequest (head ++ rest) = { parseRequest head with body := rest } := by
  rw [Proxy.parseRequest_append h.closes, if_pos h.method]

theorem PostHead.readBody {head : Bytes} {n : Nat} (h : PostHead head n) {body : Bytes}
    (hle : body.length ≤ n) (pieces : List Bytes) :
    readBody (head ++ body) pieces =
      .ok (head ++ (body ++ (recv (n - body.length) pieces).1)) := by
  obtain ⟨value, hfind, hne, hdigits, hvalue⟩ := h.contentLength
  have hsmall := h.small
  have hstoi : stoi value = some (n : Int) := by
    rw [← hvalue] at hsmall ⊢
    exact stoi_digits hne hdigits ⟨by omega, by omega⟩
  unfold Proxy.readBody
  rw [h.parseRequest_append]
  dsimp only
  rw [if_pos h.method, hfind]
  dsimp only
  rw [hstoi]
  dsimp only
  rw [readUntil_closes (by decide) h.closes]
  dsimp only
  by_cases hshort : body.length < n
  · rw [if_pos (by omega), if_pos (by omega), Int.toNat_natCast, List.append_assoc]
  · -- All of it was in the buffer.
    have hnothing : (recv (n - body.length) pieces).1 = [] := by
      rw [Nat.sub_eq_zero_of_le (Nat.not_lt.mp hshort)]
      cases pieces <;> rfl
    rw [hnothing, List.append_nil]
    split
    · rw [if_neg (by omega)]
    · rfl

theorem PostHead.forwarded_iff {head : Bytes} {n : Nat} (h : PostHead head n) {pieces : List Bytes}
    {body : Bytes} (hread : readRequest pieces = .ok (some (head ++ body))) (body' : Bytes) :
    forwarded pieces = some (headerText (headLines (parseRequest head)) ++ crlf ++ body') ↔
      body = body' := by
  have hrefusal : refusal (parseRequest (head ++ body)) = none := by
    rw [refusal_eq_none_iff, h.parseRequest_append]
    dsimp only
    rw [h.method]
    exact ⟨by decide, by decide, h.host⟩
  have hsent : sentBody (parseRequest (head ++ body)) = body := by
    rw [sentBody, h.parseRequest_append]
    dsimp only
    by_cases hnil : body = []
    · rw [if_neg (fun hc => hc.2 hnil), hnil]
    · rw [if_pos ⟨h.method, hnil⟩]
  have hlines : headLines (parseRequest (head ++ body)) = headLines (parseRequest head) := by
    rw [h.parseRequest_append]
    rfl
  rw [forwarded, hread]
  dsimp only
  rw [if_pos hrefusal, requestText_eq, hsent, hlines, Option.some.injEq, List.append_right_inj]

/-- Behind the piece that completes the head, one piece comes at most, and none if that piece does not
fit in the buffer. -/
def OneMore (head : Bytes) (pieces : List Bytes) : Prop :=
  ∀ front piece back, pieces = front ++ piece :: back → front.flatten.length < head.length →
    head.length ≤ (front.flatten ++ piece).length →
      back.length ≤ if (front.flatten ++ piece).length < bufferSize then 1 else 0

theorem PostHead.forwarded_pieces_iff {head body : Bytes} (h : PostHead head body.length)
    {front : List Bytes} {piece : Bytes} {back : List Bytes}
    (hpieces : ∀ p ∈ front ++ piece :: back, p ≠ [])
    (hstream : (front ++ piece :: back).flatten = head ++ body)
    (hlt : front.flatten.length < head.length)
    (hle : head.length ≤ (front.flatten ++ piece).length) :
    forwarded (front ++ piece :: back) =
        some (headerText (headLines (parseRequest head)) ++ crlf ++ body) ↔
      back.length ≤ if (front.flatten ++ piece).length < bufferSize then 1 else 0 := by
  have hfits := h.fits
  let room := bufferSize - front.flatten.length - 1
  let rest := (recv room (piece :: back)).2
  have hheaders : readHeaders [] (front ++ piece :: back) = (front.flatten ++ piece.take room, rest) :=
    readHeaders_spec h.closes hfits piece back []
      (fun p hp => hpieces p (List.mem_append_left _ hp)) hstream hlt hle
  -- The buffer has the head and a front of the body, and the rest of it is still to come.
  have hwhole : front.flatten ++ piece.take room ++ rest.flatten = head ++ body := by
    rw [List.append_assoc, ← hstream, List.flatten_append]
    exact congrArg (front.flatten ++ ·) (recv_flatten room (piece :: back))
  rw [List.length_append] at hle
  obtain ⟨begun, hbuffer⟩ : head <+: front.flatten ++ piece.take room := by
    refine List.prefix_of_prefix_length_le (List.prefix_append head body)
      (hwhole ▸ List.prefix_append _ _) ?_
    rw [List.length_append, List.length_take]
    omega
  rw [← hbuffer, List.append_assoc, List.append_right_inj] at hwhole
  have hmissing : body.length - begun.length = rest.flatten.length := by
    rw [← hwhole, List.length_append]
    omega
  have hread : readRequest (front ++ piece :: back) =
      .ok (some (head ++ (begun ++ (recv rest.flatten.length rest).1))) := by
    have hne : head ++ begun ≠ [] := by
      intro hnil
      rw [(List.append_eq_nil_iff.mp hnil).1] at hlt
      exact absurd hlt (Nat.not_lt_zero _)
    rw [readRequest, hheaders, ← hbuffer]
    dsimp only
    rw [if_neg hne, h.readBody (by rw [← hwhole, List.length_append]; omega), hmissing]
    rfl
  have hrest : ∀ p ∈ rest, p ≠ [] :=
    recv_ne_nil fun p hp => hpieces p (List.mem_append_right _ hp)
  rw [h.forwarded_iff hread]
  conv_lhs => rw [← hwhole, List.append_right_inj]
  rw [recv_flatten_iff hrest]
  have hlength : rest = if piece.length ≤ room then back else piece.drop room :: back := rfl
  rw [hlength, List.length_append]
  by_cases hroom : piece.length ≤ room
  · rw [if_pos hroom, if_pos (by omega)]
  · rw [if_neg hroom, if_neg (by omega), List.length_cons]
    omega

/-- **Bodies.** A `POST` is sent on with its whole body exactly if all that is missing of it behind the
headers comes in one piece. -/
theorem body_forwarded_iff (head body : Bytes) (h : PostHead head body.length) (pieces : List Bytes)
    (hpieces : ∀ p ∈ pieces, p ≠ []) (hstream : pieces.flatten = head ++ body) :
    forwarded pieces = some (headerText (headLines (parseRequest head)) ++ crlf ++ body) ↔
      OneMore head pieces := by
  constructor
  · rintro hforwarded front piece back rfl hlt hle
    exact (h.forwarded_pieces_iff hpieces hstream hlt hle).mp hforwarded
  · intro hmore
    have hpos : 0 < head.length := List.length_pos_iff.mpr (h.closes.ne_nil (by decide))
    have hlength : head.length ≤ pieces.flatten.length := by
      rw [hstream, List.length_append]
      omega
    obtain ⟨front, piece, back, rfl, hlt, hle⟩ := exists_piece hpos hlength
    exact (h.forwarded_pieces_iff hpieces hstream hlt hle).mpr (hmore front piece back rfl hlt hle)

def fourBytes : Bytes := ofString "POST http://h/ HTTP/1.1\r\nContent-Length: 4\r\n\r\n"

theorem postHead_fourBytes : PostHead fourBytes 4 where
  closes := ⟨by decide, by decide⟩
  fits := by decide
  method := by decide
  host := by decide
  contentLength := ⟨ofString "4", by decide, by decide, List.all_eq_true.mp rfl, by decide⟩
  small := by decide

theorem two_pieces : OneMore fourBytes [fourBytes ++ ofString "ab", ofString "cd"] :=
  (body_forwarded_iff fourBytes (ofString "abcd") postHead_fourBytes
    [fourBytes ++ ofString "ab", ofString "cd"] (by decide) (by decide)).mp (by decide)

/-- With the body in two pieces behind the headers, the second one is lost. -/
theorem third_piece_lost : ¬ ∀ (head body : Bytes) (pieces : List Bytes), PostHead head body.length →
    (∀ p ∈ pieces, p ≠ []) → pieces.flatten = head ++ body →
      forwarded pieces = some (headerText (headLines (parseRequest head)) ++ crlf ++ body) := by
  intro h
  exact absurd (h fourBytes (ofString "abcd") [fourBytes, ofString "ab", ofString "cd"]
    postHead_fourBytes (by decide) (by decide)) (by decide)

end Proxy
