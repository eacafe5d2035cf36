import ComputerNetworks.Proxy.Request

/-!
# The origin server

`fetchFromServer` and the loop that reads its response, the status code in a response, and the
responses that the proxy makes itself.
-/

open Lib Lib.Bytes Lib.Crlf Lib.Fields Lib.Number

namespace Proxy

/-! ## Responses -/

def extractStatusCode (response : Bytes) : Int :=
  match cut space response with
  | none => 0
  | some (_, rest) =>
    match cut space rest with
    | none => 0
    | some (statusStr, _) => (stoi statusStr).getD 0

def createErrorResponse (statusCode : Int) (statusText message : Bytes) : Bytes :=
  ofString "HTTP/1.1 " ++ intText statusCode ++ space :: statusText ++ crlf ++
    ofString "Content-Type: text/plain" ++ crlf ++
    ofString "Content-Length: " ++ natText message.length ++ crlf ++
    ofString "Connection: close" ++ crlf ++ crlf ++ message

def shouldCache (statusCode : Int) : Bool := decide (statusCode = 200)

theorem extractStatusCode_nil : extractStatusCode [] = 0 := rfl

theorem extractStatusCode_createErrorResponse {statusCode : Int} (h : IsInt statusCode)
    (statusText message : Bytes) :
    extractStatusCode (createErrorResponse statusCode statusText message) = statusCode := by
  obtain ⟨rest, hrest⟩ : ∃ rest, createErrorResponse statusCode statusText message =
      ofString "HTTP/1.1" ++ space :: (intText statusCode ++ space :: rest) := by
    refine ⟨statusText ++ crlf ++ ofString "Content-Type: text/plain" ++ crlf ++
      ofString "Content-Length: " ++ natText message.length ++ crlf ++
      ofString "Connection: close" ++ crlf ++ crlf ++ message, ?_⟩
    rw [createErrorResponse, show ofString "HTTP/1.1 " = ofString "HTTP/1.1" ++ [space] from rfl]
    simp only [List.append_assoc, List.cons_append, List.nil_append]
  have hspace : space ∉ intText statusCode := notMem_intText rfl statusCode
  rw [hrest, extractStatusCode, cut_append space (by decide)]
  dsimp only
  rw [cut_append space hspace]
  dsimp only
  rw [stoi_intText h]
  rfl

/-! ## Reading -/

/-- What a `recv` gives: so many bytes, none at the end of the stream, or a negative result. -/
inductive RecvResult where
  | data (bytes : Bytes)
  | error
  deriving DecidableEq

def RecvResult.bytesRead : RecvResult → Int
  | .data bytes => bytes.length
  | .error => -1

def RecvResult.buffer : RecvResult → Bytes
  | .data bytes => bytes
  | .error => []

def readFullResponse (response : Bytes) : List RecvResult → Bytes
  | [] => response
  | result :: results =>
    if result.bytesRead ≤ 0 then response
    else readFullResponse (response ++ result.buffer) results

theorem readFullResponse_eq {chunks : List Bytes} (h : ∀ chunk ∈ chunks, chunk ≠ [])
    {stop : RecvResult} (hstop : stop.bytesRead ≤ 0) (response : Bytes) (results : List RecvResult) :
    readFullResponse response (chunks.map .data ++ stop :: results) = response ++ chunks.flatten := by
  induction chunks generalizing response with
  | nil => rw [List.map_nil, List.nil_append, readFullResponse, if_pos hstop, List.flatten_nil,
      List.append_nil]
  | cons chunk chunks ih =>
    have hpos : ¬(RecvResult.data chunk).bytesRead ≤ 0 := by
      have := List.length_pos_iff.mpr (h chunk List.mem_cons_self)
      rw [RecvResult.bytesRead]
      omega
    rw [List.map_cons, List.cons_append, readFullResponse, if_neg hpos, RecvResult.buffer,
      ih fun c hc => h c (List.mem_cons_of_mem chunk hc), List.append_assoc, List.flatten_cons]

/-! ## Fetching -/

/-- The network as one fetch finds it: names and their addresses, what can be connected to and sent,
and the results of `recv` once a text has been sent. -/
structure Net where
  gethostbyname : Bytes → Option Bytes
  socket : Bool
  connect : Bytes → UInt16 → Bool
  send : Bytes → Bool
  recv : Bytes → List RecvResult

/-- A network in which nothing fails, with an origin of which `recv` gives `results`. -/
def Net.giving (results : List RecvResult) : Net :=
  { gethostbyname := fun _ => some [127, 0, 0, 1]
    socket := true
    connect := fun _ _ => true
    send := fun _ => true
    recv := fun _ => results }

/-- The beginning of `fetchFromServer`: the results of the `recv`s that come behind it, or the message
of a failure. -/
def exchange (net : Net) (request : ParsedRequest) : Except Bytes (List RecvResult) :=
  -- The name is a C string, and `htons` takes 16 bits of the port.
  match net.gethostbyname (request.host.takeWhile (· ≠ 0)) with
  | none => .error (ofString "Failed to resolve hostname")
  | some address =>
    if net.socket = false then .error (ofString "Failed to create socket")
    else if net.connect address (UInt16.ofInt request.port) = false then
      .error (ofString "Failed to connect to server")
    else if net.send (requestText request) = false then .error (ofString "Failed to send request")
    else .ok (net.recv (requestText request))

def fetchFromServer (net : Net) (request : ParsedRequest) : Bytes :=
  match exchange net request with
  | .error message => createErrorResponse 502 (ofString "Bad Gateway") message
  | .ok results =>
    let response := readFullResponse [] results
    if response = [] then
      createErrorResponse 502 (ofString "Bad Gateway") (ofString "Empty response from server")
    else response

theorem createErrorResponse_ne_nil (statusCode : Int) (statusText message : Bytes) :
    createErrorResponse statusCode statusText message ≠ [] := by
  simp [createErrorResponse, crlf]

theorem fetchFromServer_ne_nil (net : Net) (request : ParsedRequest) :
    fetchFromServer net request ≠ [] := by
  unfold fetchFromServer
  split
  · exact createErrorResponse_ne_nil _ _ _
  · dsimp only
    split
    · exact createErrorResponse_ne_nil _ _ _
    · rename_i hne
      exact hne

theorem extractStatusCode_fetchFromServer {net : Net} {request : ParsedRequest}
    {results : List RecvResult} (h : exchange net request = .ok results) :
    extractStatusCode (fetchFromServer net request) = 200 ↔
      extractStatusCode (readFullResponse [] results) = 200 := by
  rw [fetchFromServer, h]
  dsimp only
  split
  · rename_i hempty
    rw [hempty, extractStatusCode_createErrorResponse (by decide), extractStatusCode_nil]
    decide
  · rfl

end Proxy
