import ComputerNetworks.Lib.Crlf
import ComputerNetworks.Lib.Number
import ComputerNetworks.Lib.SortedMap
import ComputerNetworks.Lib.Text

/-!
# Requests

`ParsedRequest` and `parseRequest` of the proxy, and the request text that `fetchFromServer` builds
from what was parsed.
-/

open Lib Lib.Bytes Lib.Crlf Lib.Ctype Lib.Fields Lib.Number

namespace Proxy

structure ParsedRequest where
  method : Bytes
  url : Bytes
  host : Bytes
  path : Bytes
  port : Int
  version : Bytes
  headers : SortedMap Bytes Bytes
  body : Bytes
  deriving DecidableEq

/-- `ParsedRequest()`. -/
def ParsedRequest.default : ParsedRequest :=
  { method := [], url := [], host := [], path := [], port := 80, version := [], headers := .empty,
    body := [] }

/-! ## Headers -/

def popCr (line : Bytes) : Bytes := if line.getLast? = some cr then line.dropLast else line

/-- A blank, for the trimming of values: a space or a tab. -/
def isBlank (c : UInt8) : Bool := c = space || c = 0x09

/-- One header line, with its key in lower case. A line without a colon is passed over. -/
def parseHeader (line : Bytes) : Option (Bytes × Bytes) :=
  (cut colon (popCr line)).map fun parts => (parts.1.map tolower, trim isBlank parts.2)

def addHeader (headers : SortedMap Bytes Bytes) (line : Bytes) : SortedMap Bytes Bytes :=
  match parseHeader line with
  | some (key, value) => headers.insert key value
  | none => headers

/-- The header loop, up to an empty line. -/
def parseHeaders (lines : List Bytes) : SortedMap Bytes Bytes :=
  (lines.takeWhile fun line => decide (line ≠ [cr] ∧ line ≠ [])).foldl addHeader .empty

/-! ## Host, port and path -/

/-- A host with a port behind a colon, or with the default one. -/
def hostPort (text : Bytes) (defaultPort : Int) : Bytes × Int :=
  match cut colon text with
  | some (host, port) => (host, (stoi port).getD defaultPort)
  | none => (text, defaultPort)

def isHttp (url : Bytes) : Bool := (ofString "http://").isPrefixOf url

def isHttps (url : Bytes) : Bool := (ofString "https://").isPrefixOf url

def behindProtocol (url : Bytes) : Bytes :=
  match readUntil (ofString "://") url with
  | some (_, rest) => rest
  | none => []

/-- The host, the port and the path of a request. -/
def locate (url : Bytes) (headers : SortedMap Bytes Bytes) : Bytes × Int × Bytes :=
  if isHttp url || isHttps url then
    let rest := behindProtocol url
    let located := hostPort (rest.takeWhile (· ≠ slash)) (if isHttps url then 443 else 80)
    (located.1, located.2, rest.dropWhile (· ≠ slash))
  else
    match headers.find? (ofString "host") with
    | some hostHeader =>
      let located := hostPort hostHeader 80
      let path := url.dropWhile (· ≠ slash)
      (located.1, located.2, if path = [] then [slash] else path)
    | none => ([], 80, url)

/-! ## Parsing -/

def bodyOf (rawRequest : Bytes) : Bytes :=
  match readUntil (crlf ++ crlf) rawRequest with
  | some (_, body) => body
  | none => []

def parseRequest (rawRequest : Bytes) : ParsedRequest :=
  match Text.getlines lf rawRequest with
  | [] => .default
  | line :: lines =>
    let method := word isspace line
    let url := word isspace method.2
    let version := word isspace url.2
    let headers := parseHeaders lines
    let located := locate url.1 headers
    { method := method.1
      url := url.1
      host := located.1
      path := if located.2.2 = [] then [slash] else located.2.2
      port := located.2.1
      version := popCr version.1
      headers
      body := if method.1 = ofString "POST" then bodyOf rawRequest else [] }

/-! ## Forwarding -/

def ownHeader (key : Bytes) : Bool :=
  key = ofString "host" || key = ofString "connection" || key = ofString "proxy-connection"

def hostText (request : ParsedRequest) : Bytes :=
  request.host ++ if request.port ≠ 80 then colon :: intText request.port else []

def headerLine (key value : Bytes) : Bytes := key ++ colon :: space :: value

def requestText (request : ParsedRequest) : Bytes :=
  (request.method ++ space :: request.path ++ space :: request.version ++ crlf) ++
  (request.headers.filter fun key => !ownHeader key).entries.flatMap
    (fun header => headerLine header.1 header.2 ++ crlf) ++
  (headerLine (ofString "Host") (hostText request) ++ crlf) ++
  (headerLine (ofString "Connection") (ofString "close") ++ crlf) ++
  crlf ++
  if request.method = ofString "POST" ∧ request.body ≠ [] then request.body else []

end Proxy
