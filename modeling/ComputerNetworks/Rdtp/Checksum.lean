import ComputerNetworks.Lib.Crc
import ComputerNetworks.Rdtp.Codec

/-! # What the checksum catches -/

open Lib Lib.Bytes Lib.Crc

namespace Rdtp

/-! ## The table computes bit steps -/

/-- The reflected polynomial of IEEE 802.3. -/
def poly : BitVec 32 := 0xEDB88320

theorem and_one_ne_zero (c : UInt32) : c &&& 1 ≠ 0 ↔ c.toBitVec.getLsbD 0 = true := by
  have h : (c &&& 1).toBitVec = BitVec.setWidth 32 (BitVec.ofBool (c.toBitVec.getLsbD 0)) := by
    rw [UInt32.toBitVec_and]
    exact BitVec.and_one_eq_setWidth_ofBool_getLsbD
  rw [ne_eq, ← UInt32.toBitVec_inj, h]
  cases c.toBitVec.getLsbD 0 <;> decide

theorem tableBit_toBitVec (c : UInt32) : (tableBit c).toBitVec = bitStep poly c.toBitVec := by
  unfold tableBit bitStep
  simp only [and_one_ne_zero]
  split <;> simp [UInt32.toBitVec_shiftRight, poly]

theorem iterate_tableBit_toBitVec (n : Nat) (c : UInt32) :
    (tableBit^[n] c).toBitVec = bitSteps poly n c.toBitVec := by
  induction n generalizing c with
  | zero => rfl
  | succ n ih =>
    rw [Function.iterate_succ_apply, ih, tableBit_toBitVec]
    rfl

theorem tableEntry_toBitVec (i : UInt32) :
    (tableEntry i).toBitVec = bitSteps poly 8 i.toBitVec :=
  iterate_tableBit_toBitVec 8 i

theorem table_getD (i : Nat) (h : i < 256) : table.getD i 0 = tableEntry (UInt32.ofNat i) := by
  simp [table, List.getD_eq_getElem?_getD, List.getElem?_range h]

theorem index_lt (x : UInt32) : (x &&& 0xFF).toNat < 256 := by
  rw [UInt32.toNat_and]
  exact Nat.lt_of_le_of_lt Nat.and_le_right (by decide)

theorem crcByte_toBitVec (c : UInt32) (b : UInt8) :
    (crcByte c b).toBitVec = byteStep poly c.toBitVec b.toBitVec := by
  have hb : (lowByte b.toBitVec : BitVec 32) >>> 8 = 0#32 := by
    apply BitVec.eq_of_toNat_eq
    have := b.toNat_lt
    simpa [lowByte, Nat.shiftRight_eq_div_pow] using this
  have hmask : ((c ^^^ b.toUInt32) &&& 0xFF).toBitVec =
      (c.toBitVec ^^^ lowByte b.toBitVec) &&& lowByte 255 := rfl
  rw [crcByte, table_getD _ (index_lt _), UInt32.ofNat_toNat, UInt32.toBitVec_xor,
    tableEntry_toBitVec, hmask, byteStep, bitSteps_eight poly (c.toBitVec ^^^ _),
    BitVec.ushiftRight_xor_distrib, hb, BitVec.xor_zero]
  rfl

theorem foldl_crcByte_toBitVec (c : UInt32) (data : Bytes) :
    (data.foldl crcByte c).toBitVec = register poly c.toBitVec (data.map (·.toBitVec)) := by
  induction data generalizing c with
  | nil => rfl
  | cons b data ih =>
    rw [List.foldl_cons, ih, crcByte_toBitVec]
    rfl

theorem crc32_toBitVec (data : Bytes) :
    (crc32 data).toBitVec = register poly 0xFFFFFFFF (data.map (·.toBitVec)) ^^^ 0xFFFFFFFF := by
  rw [crc32, UInt32.toBitVec_xor, foldl_crcByte_toBitVec]
  rfl

/-! ## Bursts -/

theorem map_toBitVec_injective : Function.Injective (List.map UInt8.toBitVec) :=
  fun _ _ h => (List.map_inj_right fun _ _ hb => UInt8.toBitVec_inj.mp hb).mp h

/-- No two strings that differ only within four neighbouring bytes share a checksum. -/
theorem crc32_burst (xs ys : Bytes) (k : Nat) (hlen : xs.length = ys.length)
    (hsame : ∀ i, i < k ∨ k + 4 ≤ i → xs[i]? = ys[i]?) (h : crc32 xs = crc32 ys) : xs = ys := by
  obtain ⟨hpre, hpost⟩ := split_of_agree xs ys k 4 hsame
  have hxs := take_append_middle xs k 4
  have hys := take_append_middle ys k 4
  rw [← hpre, ← hpost] at hys
  have hreg := congrArg UInt32.toBitVec h
  rw [crc32_toBitVec, crc32_toBitVec, BitVec.xor_left_inj, ← hxs, ← hys] at hreg
  simp only [List.map_append] at hreg
  by_contra hne
  have hmid : (xs.drop k).take 4 ≠ (ys.drop k).take 4 := by
    intro hmid
    rw [← hmid, hxs] at hys
    exact hne hys
  apply register_ne_of_burst poly _ (by decide) _ _ _ _ ?_ ?_ ?_ hreg
  · simp [hlen]
  · simp only [List.length_map, List.length_take]
    omega
  · exact fun hm => hmid (map_toBitVec_injective hm)

/-! ## Corrupted packets -/

theorem getU32_congr (xs ys : Bytes) (off : Nat) (hx : off + 4 ≤ xs.length)
    (hy : off + 4 ≤ ys.length) (h : slice xs off 4 = slice ys off 4) :
    getU32 xs off = getU32 ys off := by
  apply be32_injective
  rw [getU32, getU32, be32_read32 xs off hx, be32_read32 ys off hy, h]

theorem slice_congr (xs ys : Bytes) (off n : Nat)
    (h : ∀ i, off ≤ i → i < off + n → xs[i]? = ys[i]?) : slice xs off n = slice ys off n := by
  apply List.ext_getElem?
  intro i
  simp only [slice, List.getElem?_take, List.getElem?_drop]
  split
  · exact h _ (by omega) (by omega)
  · rfl

theorem corrupt_crc_field (packet buf : Bytes) (p q : ParsedPacket) (hp : Accepts packet p)
    (hq : Accepts buf q) (hsame : ∀ i, i < 16 ∨ 16 + 4 ≤ i → buf[i]? = packet[i]?) :
    buf = packet := by
  obtain ⟨hpre, hpost⟩ := split_of_agree buf packet 16 4 hsame
  have hsize := hp.size
  have hsize' := hq.size
  unfold kHeaderSize at hsize hsize'
  have htmp : buf.memcpy 16 (be32 0) = packet.memcpy 16 (be32 0) := by
    simp only [memcpy, be32_length, hpre, hpost]
  have hfield : getU32 buf 16 = getU32 packet 16 := by rw [← hq.crc, ← hp.crc, htmp]
  have hmid : (buf.drop 16).take 4 = (packet.drop 16).take 4 := by
    have h := congrArg be32 hfield
    rwa [getU32, getU32, be32_read32 buf 16 (by omega), be32_read32 packet 16 (by omega)] at h
  rw [← take_append_middle buf 16 4, hpre, hmid, hpost, take_append_middle]

theorem corrupt_outside_crc (packet buf : Bytes) (p q : ParsedPacket) (hp : Accepts packet p)
    (hq : Accepts buf q) (hlen : buf.length = packet.length) (k : Nat)
    (hk : k + 4 ≤ 16 ∨ 20 ≤ k) (hsame : ∀ i, i < k ∨ k + 4 ≤ i → buf[i]? = packet[i]?) :
    buf = packet := by
  have hsize := hp.size
  unfold kHeaderSize at hsize
  have hfield : getU32 buf 16 = getU32 packet 16 := by
    apply getU32_congr _ _ _ (by omega) (by omega)
    apply slice_congr
    intro i _ _
    exact hsame i (by omega)
  have hcrc : crc32 (buf.memcpy 16 (be32 0)) = crc32 (packet.memcpy 16 (be32 0)) := by
    rw [hq.crc, hp.crc, hfield]
  have houtside : ∀ (l : Bytes) (i : Nat), l.length = packet.length → i < 16 ∨ 20 ≤ i →
      (l.memcpy 16 (be32 0))[i]? = l[i]? :=
    fun l i hl hi => memcpy_getElem? l 16 _ i (by simp; omega) (by simpa using hi)
  have htmp : buf.memcpy 16 (be32 0) = packet.memcpy 16 (be32 0) := by
    apply crc32_burst _ _ k ?_ ?_ hcrc
    · rw [memcpy_length _ _ _ (by simp; omega), memcpy_length _ _ _ (by simp; omega), hlen]
    · intro i hi
      by_cases hin : i < 16 ∨ 20 ≤ i
      · rw [houtside buf i hlen hin, houtside packet i rfl hin]
        exact hsame i hi
      · obtain ⟨j, rfl⟩ : ∃ j, i = 16 + j := ⟨i - 16, by omega⟩
        rw [memcpy_getElem?_inside _ _ _ _ (by omega) (by simp; omega),
          memcpy_getElem?_inside _ _ _ _ (by omega) (by simp; omega)]
  apply List.ext_getElem?
  intro i
  by_cases hin : i < 16 ∨ 20 ≤ i
  · rw [← houtside buf i hlen hin, ← houtside packet i rfl hin, htmp]
  · exact hsame i (by omega)

/-- A stretch of four bytes that lies outside the checksum field (bytes 16 to 19), or is it. -/
def clearOfCrc (k : Nat) : Prop := k + 4 ≤ 16 ∨ k = 16 ∨ 20 ≤ k

theorem parse_corrupted (packet buf : Bytes) (p : ParsedPacket) (hp : Accepts packet p)
    (hlen : buf.length = packet.length) (hne : buf ≠ packet) (k : Nat) (hk : clearOfCrc k)
    (hsame : ∀ i, i < k ∨ k + 4 ≤ i → buf[i]? = packet[i]?) : parsePacket buf = none := by
  rw [Option.eq_none_iff_forall_ne_some]
  intro q hq
  have hq := (parsePacket_eq_some_iff buf q).mp hq
  rcases hk with hk | rfl | hk
  · exact hne (corrupt_outside_crc packet buf p q hp hq hlen k (Or.inl hk) hsame)
  · exact hne (corrupt_crc_field packet buf p q hp hq hsame)
  · exact hne (corrupt_outside_crc packet buf p q hp hq hlen k (Or.inr hk) hsame)

theorem exists_clearOfCrc (i : Nat) : ∃ k, clearOfCrc k ∧ k ≤ i ∧ i < k + 4 := by
  unfold clearOfCrc
  by_cases h1 : i < 16
  · exact ⟨i / 4 * 4, by omega, by omega, by omega⟩
  · by_cases h2 : i < 20
    · exact ⟨16, by omega, by omega, by omega⟩
    · exact ⟨i, by omega, by omega, by omega⟩

/-- **Corruption is detected.** A change within four neighbouring bytes, clear of the checksum field
or inside it, makes `parse_packet` refuse the packet. So does every change of a single byte. -/
theorem corruption_detected (type : PacketType) (seq : UInt32) (payload : Bytes)
    (hlen : payload.length ≤ 65535) :
    let packet := buildPacket type seq (some payload) (UInt16.ofNat payload.length)
    (∀ buf : Bytes, buf.length = packet.length → buf ≠ packet →
      ∀ k, clearOfCrc k → (∀ i, i < k ∨ k + 4 ≤ i → buf[i]? = packet[i]?) →
        parsePacket buf = none) ∧
    (∀ i < packet.length, ∀ b : UInt8, packet[i]? ≠ some b →
      parsePacket (packet.set i b) = none) := by
  intro packet
  have hp := accepts_build type seq _ payload (length_ofNat payload hlen)
  have hburst := fun buf hsize hne k hk hsame =>
    parse_corrupted packet buf _ hp hsize hne k hk hsame
  refine ⟨hburst, fun i hi b hb => ?_⟩
  obtain ⟨k, hk, hki, hik⟩ := exists_clearOfCrc i
  refine hburst _ (List.length_set ..) ?_ k hk ?_
  · intro h
    apply hb
    rw [← h, List.getElem?_set_self hi]
  · intro j hj
    exact List.getElem?_set_ne (by omega)

theorem corruption_detected_ack :
    parsePacket ((buildPacket .ack 6 (some []) 0).set 11 7) = none :=
  (corruption_detected .ack 6 [] (by decide)).2 11 (by decide +kernel) 7 (by decide +kernel)

end Rdtp
