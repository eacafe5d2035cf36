import Mathlib.Logic.Function.Iterate
import ComputerNetworks.Lib.Bytes

/-!
# The RDTP packet

`crc32`, `build_packet` and `parse_packet` of `rdt_common.hpp`. A buffer is the
list of its bytes, and a copy into it is `memcpy`.
-/

open Lib Lib.Bytes

namespace Rdtp

/-! ## CRC32 -/

/-- One turn of the loop that fills the table. -/
def tableBit (c : UInt32) : UInt32 :=
  if c &&& 1 ≠ 0 then (0xEDB88320 : UInt32) ^^^ (c >>> 1) else c >>> 1

def tableEntry (i : UInt32) : UInt32 := tableBit^[8] i

def table : List UInt32 := (List.range 256).map fun i => tableEntry (UInt32.ofNat i)

def crcByte (c : UInt32) (b : UInt8) : UInt32 :=
  table.getD ((c ^^^ b.toUInt32) &&& 0xFF).toNat 0 ^^^ (c >>> 8)

def crc32 (data : Bytes) : UInt32 := data.foldl crcByte 0xFFFFFFFF ^^^ 0xFFFFFFFF

/-! ## Packet format -/

def kMagic : UInt32 := 0x52445450
def kVersion : UInt8 := 1
def kHeaderSize : Nat := 20

inductive PacketType where
  | data
  | ack
  | fin
  deriving DecidableEq, Repr

def PacketType.toU8 : PacketType → UInt8
  | .data => 1
  | .ack => 2
  | .fin => 3

/-- The cast of `parse_packet`, with the check that stands before it. -/
def PacketType.ofU8 (b : UInt8) : Option PacketType :=
  if b = PacketType.data.toU8 then some .data
  else if b = PacketType.ack.toU8 then some .ack
  else if b = PacketType.fin.toU8 then some .fin
  else none

structure ParsedPacket where
  type : PacketType
  /-- For ACK: ack number (cumulative); for DATA/FIN: seq number. -/
  seq : UInt32
  payload : Bytes
  deriving DecidableEq, Repr

/-- `payload` is `none` where the caller passes `nullptr`. -/
def buildPacket (type : PacketType) (seq : UInt32) (payload : Option Bytes) (len : UInt16) :
    Bytes :=
  let buf : Bytes := List.replicate (kHeaderSize + len.toNat) 0
  let buf := buf.memcpy 0 (be32 kMagic)
  let buf := buf.memcpy 4 [kVersion]
  let buf := buf.memcpy 5 [type.toU8]
  let buf := buf.memcpy 6 (be16 0)
  let buf := buf.memcpy 8 (be32 seq)
  let buf := buf.memcpy 12 (be16 len)
  let buf := buf.memcpy 14 (be16 (UInt16.ofNat kHeaderSize))
  let buf := buf.memcpy 16 (be32 0)
  let buf :=
    match payload with
    | some bytes => if 0 < len then buf.memcpy kHeaderSize (bytes.take len.toNat) else buf
    | none => buf
  buf.memcpy 16 (be32 (crc32 buf))

def getU32 (buf : Bytes) (off : Nat) : UInt32 := read32 (buf.drop off)

def getU16 (buf : Bytes) (off : Nat) : UInt16 := read16 (buf.drop off)

def parsePacket (buf : Bytes) : Option ParsedPacket :=
  if buf.length < kHeaderSize then none
  else if getU32 buf 0 ≠ kMagic then none
  else if buf.getD 4 0 ≠ kVersion then none
  else
    match PacketType.ofU8 (buf.getD 5 0) with
    | none => none
    | some type =>
      let seq := getU32 buf 8
      let len := getU16 buf 12
      let hdrLen := getU16 buf 14
      if hdrLen.toNat ≠ kHeaderSize then none
      else if kHeaderSize + len.toNat ≠ buf.length then none
      else
        let gotCrc := getU32 buf 16
        let tmp := buf.memcpy 16 (be32 0)
        if crc32 tmp ≠ gotCrc then none
        else some { type, seq, payload := (buf.drop kHeaderSize).take len.toNat }

/-! ## The bytes of a packet -/

def header (type : PacketType) (seq : UInt32) (len : UInt16) (crc : UInt32) : Bytes :=
  be32 kMagic ++ [kVersion, type.toU8] ++ be16 0 ++ be32 seq ++ be16 len ++ be16 20 ++ be32 crc

/-- The checksum that `build_packet` puts in: over the header with a zero field, and the payload. -/
def checksum (type : PacketType) (seq : UInt32) (len : UInt16) (payload : Bytes) : UInt32 :=
  crc32 (header type seq len 0 ++ payload)

theorem memcpy_checksum (type : PacketType) (seq : UInt32) (len : UInt16) (c d : UInt32)
    (payload : Bytes) :
    Bytes.memcpy (header type seq len c ++ payload) 16 (be32 d) =
      header type seq len d ++ payload := by
  rfl

theorem memcpy_payload (head payload : Bytes) (n : Nat) (hn : payload.length = n) :
    Bytes.memcpy (head ++ List.replicate n 0) head.length (payload.take n) = head ++ payload := by
  have h := memcpy_append head (List.replicate n 0) (payload.take n) [] (by simp [hn])
  simpa [List.take_of_length_le (le_of_eq hn)] using h

theorem memcpy_header (type : PacketType) (seq : UInt32) (len : UInt16) (rest : Bytes) :
    (((((((Bytes.memcpy (List.replicate kHeaderSize 0 ++ rest) 0 (be32 kMagic)).memcpy 4
      [kVersion]).memcpy 5 [type.toU8]).memcpy 6 (be16 0)).memcpy 8 (be32 seq)).memcpy 12
      (be16 len)).memcpy 14 (be16 (UInt16.ofNat kHeaderSize))).memcpy 16 (be32 0) =
      header type seq len 0 ++ rest := by
  have hmagic : Bytes.memcpy (List.replicate kHeaderSize 0 ++ rest) 0 (be32 kMagic) =
      be32 kMagic ++ (List.replicate 16 0 ++ rest) := rfl
  have hversion : Bytes.memcpy (be32 kMagic ++ (List.replicate 16 0 ++ rest)) 4 [kVersion] =
      be32 kMagic ++ [kVersion] ++ (List.replicate 15 0 ++ rest) := rfl
  have htype : Bytes.memcpy (be32 kMagic ++ [kVersion] ++ (List.replicate 15 0 ++ rest)) 5 [type.toU8] =
      be32 kMagic ++ [kVersion, type.toU8] ++ (List.replicate 14 0 ++ rest) := rfl
  rw [hmagic, hversion, htype]
  rfl

theorem buildPacket_eq (type : PacketType) (seq : UInt32) (payload : Bytes) (len : UInt16)
    (hlen : payload.length = len.toNat) :
    buildPacket type seq (some payload) len =
      header type seq len (checksum type seq len payload) ++ payload := by
  have hfields :
      buildPacket type seq (some payload) len =
        (let buf := header type seq len 0 ++ List.replicate len.toNat 0
         let buf := if 0 < len then Bytes.memcpy buf 20 (payload.take len.toNat) else buf
         Bytes.memcpy buf 16 (be32 (crc32 buf))) := by
    rw [buildPacket, ← List.replicate_append_replicate]
    dsimp only
    rw [memcpy_header]
    rfl
  have hbody : (if 0 < len then
        Bytes.memcpy (header type seq len 0 ++ List.replicate len.toNat 0) 20
          (payload.take len.toNat)
      else header type seq len 0 ++ List.replicate len.toNat 0) =
        header type seq len 0 ++ payload := by
    split
    · exact memcpy_payload (header type seq len 0) payload len.toNat hlen
    · have h0 : len.toNat = 0 := by
        have : ¬ 0 < len.toNat := by simpa [UInt16.lt_iff_toNat_lt] using ‹¬0 < len›
        omega
      rw [h0] at hlen
      simp [h0, List.length_eq_zero_iff.mp hlen]
  rw [hfields]
  simp only [hbody]
  rfl

theorem buildPacket_empty (type : PacketType) (seq : UInt32) :
    buildPacket type seq none 0 = buildPacket type seq (some []) 0 := rfl

-- From here on packets are known by `buildPacket_eq` and the lemmas of the decoder only.
attribute [irreducible] buildPacket parsePacket crc32

end Rdtp
