import ComputerNetworks.Rdtp.Packet

/-! # The packet decoder and encoder are inverse -/

open Lib Lib.Bytes

namespace Rdtp

@[simp] theorem ofU8_toU8 (type : PacketType) : PacketType.ofU8 type.toU8 = some type := by
  cases type <;> rfl

theorem ofU8_eq_some_iff (b : UInt8) (type : PacketType) :
    PacketType.ofU8 b = some type ↔ b = type.toU8 := by
  constructor
  · intro h
    unfold PacketType.ofU8 at h
    split_ifs at h with h1 h2 h3 <;> cases h <;> assumption
  · rintro rfl
    exact ofU8_toU8 type

/-- Everything that `parse_packet` checks before it accepts. -/
structure Accepts (buf : Bytes) (p : ParsedPacket) : Prop where
  size : kHeaderSize ≤ buf.length
  magic : getU32 buf 0 = kMagic
  version : buf.getD 4 0 = kVersion
  type : buf.getD 5 0 = p.type.toU8
  hdrLen : (getU16 buf 14).toNat = kHeaderSize
  len : kHeaderSize + (getU16 buf 12).toNat = buf.length
  crc : crc32 (buf.memcpy 16 (be32 0)) = getU32 buf 16
  seq : p.seq = getU32 buf 8
  payload : p.payload = buf.drop kHeaderSize

theorem parsePacket_eq_some_iff (buf : Bytes) (p : ParsedPacket) :
    parsePacket buf = some p ↔ Accepts buf p := by
  have hdrop : ∀ len : UInt16, kHeaderSize + len.toNat = buf.length →
      (buf.drop kHeaderSize).take len.toNat = buf.drop kHeaderSize := by
    intro len hlen
    exact List.take_of_length_le (by simp; omega)
  constructor
  · intro h
    unfold parsePacket at h
    split_ifs at h with h1 h2 h3
    split at h
    · cases h
    · rename_i type htype
      simp only at h
      split_ifs at h with h4 h5 h6
      cases h
      simp only [not_lt, ne_eq, not_not] at h1 h2 h3 h4 h5 h6
      exact ⟨h1, h2, h3, (ofU8_eq_some_iff _ _).mp htype, h4, h5, h6, rfl, hdrop _ h5⟩
  · rintro ⟨h1, h2, h3, h4, h5, h6, h7, hseq, hpay⟩
    unfold parsePacket
    rw [if_neg (by omega), if_neg (by simpa using h2), if_neg (by simpa using h3), h4, ofU8_toU8]
    simp only [ne_eq, h5, h6, h7, not_true_eq_false, if_false, Option.some.injEq]
    rw [hdrop _ h6, ← hseq, ← hpay]

/-! ## Fields of a built packet -/

section Fields

variable (type : PacketType) (seq : UInt32) (len : UInt16) (crc : UInt32) (payload : Bytes)

theorem getU32_magic : getU32 (header type seq len crc ++ payload) 0 = kMagic := rfl

theorem getU32_seq : getU32 (header type seq len crc ++ payload) 8 = seq :=
  read32_be32 seq (be16 len ++ be16 20 ++ be32 crc ++ payload)

theorem getU16_len : getU16 (header type seq len crc ++ payload) 12 = len :=
  read16_be16 len (be16 20 ++ be32 crc ++ payload)

theorem getU32_crc : getU32 (header type seq len crc ++ payload) 16 = crc :=
  read32_be32 crc payload

theorem header_length : (header type seq len crc).length = kHeaderSize := rfl

theorem accepts_build (hlen : payload.length = len.toNat) :
    Accepts (buildPacket type seq (some payload) len) ⟨type, seq, payload⟩ := by
  rw [buildPacket_eq type seq payload len hlen]
  refine ⟨?_, getU32_magic .., rfl, rfl, rfl, ?_, ?_, (getU32_seq ..).symm, rfl⟩
  · rw [List.length_append, header_length]
    exact Nat.le_add_right _ _
  · rw [getU16_len, List.length_append, header_length, hlen]
  · rw [memcpy_checksum, getU32_crc]
    rfl

end Fields

theorem parse_build (type : PacketType) (seq : UInt32) (payload : Bytes) (len : UInt16)
    (hlen : payload.length = len.toNat) :
    parsePacket (buildPacket type seq (some payload) len) = some ⟨type, seq, payload⟩ :=
  (parsePacket_eq_some_iff _ _).mpr (accepts_build type seq len payload hlen)

@[simp] theorem parse_build_empty (type : PacketType) (seq : UInt32) :
    parsePacket (buildPacket type seq none 0) = some ⟨type, seq, []⟩ := by
  rw [buildPacket_empty]
  exact parse_build type seq [] 0 rfl

/-! ## From bytes back to fields -/

/-- Both reserved bytes, where the string has them. -/
def reservedZero (buf : Bytes) : Prop := buf.getD 6 0 = 0 ∧ buf.getD 7 0 = 0

theorem Accepts.eq_header {buf : Bytes} {p : ParsedPacket} (h : Accepts buf p)
    (hres : reservedZero buf) :
    buf = header p.type p.seq (getU16 buf 12) (getU32 buf 16) ++ p.payload := by
  obtain ⟨h1, h2, h3, h4, h5, -, -, hseq, hpay⟩ := h
  unfold kHeaderSize at h1 h5 hpay
  have hmagic : be32 kMagic = slice buf 0 4 := by rw [← h2]; exact be32_read32 buf 0 (by omega)
  have hbytes : [kVersion, p.type.toU8] = slice buf 4 1 ++ slice buf 5 1 := by
    rw [slice_one buf 4 (by omega), slice_one buf 5 (by omega), h3, h4]; rfl
  have hzero : be16 0 = slice buf 6 1 ++ slice buf 7 1 := by
    rw [slice_one buf 6 (by omega), slice_one buf 7 (by omega), hres.1, hres.2]; rfl
  have hseq' : be32 p.seq = slice buf 8 4 := by rw [hseq]; exact be32_read32 buf 8 (by omega)
  have hlen : be16 (getU16 buf 12) = slice buf 12 2 := be16_read16 buf 12 (by omega)
  have hhdr : be16 20 = slice buf 14 2 := by
    rw [← be16_read16 buf 14 (by omega)]
    exact congrArg be16 (UInt16.toNat_inj.mp h5).symm
  have hcrc : be32 (getU32 buf 16) = slice buf 16 4 := be32_read32 buf 16 (by omega)
  rw [header, hmagic, hbytes, hzero, hseq', hlen, hhdr, hcrc, hpay]
  -- The fields are the slices from 0 to 20, one after the other.
  simp only [← List.append_assoc]
  repeat rw [slice_append_slice]
  exact (slice_append_drop buf 0 20).symm

theorem build_parse {buf : Bytes} {p : ParsedPacket} (h : parsePacket buf = some p)
    (hres : reservedZero buf) :
    buildPacket p.type p.seq (some p.payload) (UInt16.ofNat p.payload.length) = buf := by
  have hacc := (parsePacket_eq_some_iff buf p).mp h
  have hbuf := hacc.eq_header hres
  have hpay : p.payload.length = (getU16 buf 12).toNat := by
    have := hacc.len
    rw [hacc.payload, List.length_drop]
    omega
  have hlen : UInt16.ofNat p.payload.length = getU16 buf 12 := by
    rw [hpay]; exact UInt16.ofNat_toNat
  have hcrc : checksum p.type p.seq (getU16 buf 12) p.payload = getU32 buf 16 := by
    have h0 : buf.memcpy 16 (be32 0) = header p.type p.seq (getU16 buf 12) 0 ++ p.payload := by
      conv => lhs; rw [hbuf]
      exact memcpy_checksum _ _ _ _ _ _
    rw [← hacc.crc, h0, checksum]
  rw [hlen, buildPacket_eq _ _ _ _ hpay, hcrc]
  exact hbuf.symm

theorem length_ofNat (payload : Bytes) (h : payload.length ≤ 65535) :
    payload.length = (UInt16.ofNat payload.length).toNat := by
  simp only [UInt16.toNat_ofNat']
  omega

/-- **Decode and encode are exact inverses**, on every packet and on every byte string with clear
reserved bytes. -/
theorem packet_round_trip :
    (∀ (type : PacketType) (seq : UInt32) (payload : Bytes), payload.length ≤ 65535 →
      parsePacket (buildPacket type seq (some payload) (UInt16.ofNat payload.length)) =
        some ⟨type, seq, payload⟩) ∧
    (∀ buf : Bytes, reservedZero buf →
      (∀ p, parsePacket buf = some p →
        buildPacket p.type p.seq (some p.payload) (UInt16.ofNat p.payload.length) = buf) ∧
      ((∀ (type : PacketType) (seq : UInt32) (payload : Bytes), payload.length ≤ 65535 →
          buf ≠ buildPacket type seq (some payload) (UInt16.ofNat payload.length)) →
        parsePacket buf = none)) := by
  refine ⟨fun type seq payload h => parse_build _ _ _ _ (length_ofNat payload h),
    fun buf hres => ⟨fun p hp => build_parse hp hres, fun hne => ?_⟩⟩
  rw [Option.eq_none_iff_forall_ne_some]
  intro p hp
  have hlen : p.payload.length ≤ 65535 := by
    have hacc := (parsePacket_eq_some_iff buf p).mp hp
    have := (getU16 buf 12).toNat_lt
    have := hacc.len
    rw [hacc.payload, List.length_drop]
    omega
  exact hne p.type p.seq p.payload hlen (build_parse hp hres).symm

theorem packet_round_trip_abc :
    parsePacket (buildPacket .data 7 (some [97, 98, 99]) 3) = some ⟨.data, 7, [97, 98, 99]⟩ :=
  packet_round_trip.1 .data 7 [97, 98, 99] (by decide)

end Rdtp
