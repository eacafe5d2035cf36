import ComputerNetworks.Proxy.Forward
import ComputerNetworks.Proxy.Handle

/-!
# The target of a request

The host, the port and the path that an absolute URL names, against those that the proxy finds in it,
and the port that it connects to.
-/

open Lib Lib.Bytes Lib.Crlf Lib.Ctype Lib.Fields Lib.Number

namespace Proxy

def question : UInt8 := 0x3F

def hash : UInt8 := 0x23

/-! ## Absolute URLs -/

def hostLetter (c : UInt8) : Bool :=
  !isspace c && c ≠ slash && c ≠ colon && c ≠ question && c ≠ hash

/-- `scheme://host[:port]rest`, with `port` as its digits. -/
structure Target where
  https : Bool
  host : Bytes
  port : Option Bytes
  rest : Bytes
  host_ne : host ≠ []
  host_letters : ∀ c ∈ host, hostLetter c = true
  port_ne : ∀ ds ∈ port, ds ≠ []
  port_digits : ∀ ds ∈ port, ∀ c ∈ ds, isdigit c = true
  port_range : ∀ ds ∈ port, 1 ≤ digitsValue ds ∧ digitsValue ds ≤ 65535
  rest_solid : Solid rest
  rest_head : ∀ c ∈ rest.head?, c = slash ∨ c = question

namespace Target

def scheme (t : Target) : Bytes := if t.https then ofString "https://" else ofString "http://"

def portText (t : Target) : Bytes :=
  match t.port with
  | some ds => colon :: ds
  | none => []

def text (t : Target) : Bytes := t.scheme ++ (t.host ++ t.portText ++ t.rest)

def path (t : Target) : Bytes := if t.rest.head? = some slash then t.rest else slash :: t.rest

end Target

/-! ## What a request names -/

/-- The part of the URL between the scheme and the next slash, or the `Host` header. -/
def authority (url : Bytes) (headers : SortedMap Bytes Bytes) : Bytes :=
  if isHttp url || isHttps url then (behindProtocol url).takeWhile (· ≠ slash)
  else (headers.find? (ofString "host")).getD []

namespace Target

end Target

end Proxy
