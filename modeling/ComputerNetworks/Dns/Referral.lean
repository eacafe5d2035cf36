import ComputerNetworks.Dns.Results
import ComputerNetworks.Dns.Segments

/-!
# Where a referral leads

The servers that a turn of `iterativeResolve` goes on with, and whether the response has delegated
to them.
-/

open Lib Lib.Bytes Lib.Traced

namespace Dns

/-! ## Delegation -/

section Nesting

variable {nested : Nested} {type : DNSRecordType} {iterations : Nat} {s : ResolveState}
  {tr : List Event} {sections : Sections}

end Nesting

/-! ## A network that delivers a response -/

/-- A header with the TC flag. -/
def truncated (id : UInt16) : Bytes := be16 id ++ [2, 0, 0, 0, 0, 0, 0, 0, 0, 0]

/-- A referral to the server `n`, with an address for `owner` in the additional section. -/
def referralFor (owner : UInt8) : Bytes :=
  [0, 0, 0x80, 0, 0, 0, 0, 0, 0, 1, 0, 1, 0, 0, 2, 0, 1, 0, 0, 0, 60, 0, 3, 1, 0x6E, 0,
    1, owner, 0, 0, 1, 0, 1, 0, 0, 0, 60, 0, 4, 6, 6, 6, 6]

def serverRecord : DNSResourceRecord :=
  { name := [], type := .NS, class_ := .IN, ttl := 60, dataLength := 3, data := [1, 0x6E, 0]
    ipv4Address := [], ipv6Address := [], nsName := [0x6E], cname := [] }

def addressRecord (owner : UInt8) : DNSResourceRecord :=
  { name := [owner], type := .A, class_ := .IN, ttl := 60, dataLength := 4, data := [6, 6, 6, 6]
    ipv4Address := inetNtop4 [6, 6, 6, 6], ipv6Address := [], nsName := [], cname := [] }

end Dns
