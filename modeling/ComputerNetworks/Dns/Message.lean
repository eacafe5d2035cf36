import ComputerNetworks.Lib.Text

/-!
# DNS records

The data types of `dns_resolver.hpp`, and the texts that `inet_ntop` makes of
an address. A `std::string` is the list of its bytes.
-/

open Lib Lib.Bytes

namespace Dns

/-- An `enum class` over `uint16_t`: a cast puts any value into it. -/
structure DNSRecordType where
  value : UInt16
  deriving DecidableEq, Repr

namespace DNSRecordType

def A : DNSRecordType := ⟨1⟩
def NS : DNSRecordType := ⟨2⟩
def CNAME : DNSRecordType := ⟨5⟩
def AAAA : DNSRecordType := ⟨28⟩

end DNSRecordType

structure DNSClass where
  value : UInt16
  deriving DecidableEq, Repr

def DNSClass.IN : DNSClass := ⟨1⟩

structure DNSResourceRecord where
  name : Bytes
  type : DNSRecordType
  class_ : DNSClass
  ttl : UInt32
  dataLength : UInt16
  data : Bytes
  ipv4Address : Bytes
  ipv6Address : Bytes
  nsName : Bytes
  cname : Bytes
  deriving DecidableEq, Repr

/-! ## Address texts -/

def digits (base n : Nat) : Bytes := (Nat.toDigits base n).map fun c => UInt8.ofNat c.toNat

/-- `inet_ntop(AF_INET, ..)`. -/
def inetNtop4 (addr : Bytes) : Bytes := Text.join dot (addr.map fun b => digits 10 b.toNat)

/-- The 16-bit words of an IPv6 address. -/
def words : Bytes → List UInt16
  | a :: b :: rest => Bytes.ofBe16 a b :: words rest
  | _ => []

def zeroRun (ws : List UInt16) : Nat := (ws.takeWhile (· = 0)).length

/-- The first longest run of zero words, as its start and its length. -/
def bestRun (ws : List UInt16) : Nat × Nat :=
  (List.range ws.length).foldl
    (fun best i => if best.2 < zeroRun (ws.drop i) then (i, zeroRun (ws.drop i)) else best) (0, 0)

def hexWords (ws : List UInt16) : Bytes := Text.join colon (ws.map fun w => digits 16 w.toNat)

/-- `inet_ntop(AF_INET6, ..)`: the longest run of two or more zero words becomes `::`, and an
embedded IPv4 address keeps its dots. -/
def inetNtop6 (addr : Bytes) : Bytes :=
  let ws := words addr
  let (start, length) := bestRun ws
  if length < 2 then hexWords ws
  else if start = 0 ∧ length = 6 then [colon, colon] ++ inetNtop4 (addr.drop 12)
  else if start = 0 ∧ length = 5 ∧ ws.getD 5 0 = 0xFFFF then
    [colon, colon] ++ digits 16 0xFFFF ++ [colon] ++ inetNtop4 (addr.drop 12)
  else hexWords (ws.take start) ++ [colon, colon] ++ hexWords (ws.drop (start + length))

example : inetNtop4 [198, 41, 0, 4] = "198.41.0.4".toUTF8.toList := by decide +kernel

example : inetNtop6 [0x20, 1, 0x0D, 0xB8, 0, 0, 0, 0, 0, 0, 0, 0, 0, 0, 0, 1] =
    "2001:db8::1".toUTF8.toList := by decide +kernel

def ipv6ToString (addr : Bytes) : Bytes := inetNtop6 addr

end Dns
