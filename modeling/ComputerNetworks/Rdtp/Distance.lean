import Mathlib.Tactic.NormNum.Prime
import ComputerNetworks.Lib.Powers
import ComputerNetworks.Rdtp.Checksum

/-! # How far apart packets are -/

open Lib Lib.Bytes Lib.Crc

namespace Rdtp

/-! ## The polynomial -/

theorem prime_factors {p : Nat} (hp : p.Prime) (h : p ∣ 3 * 5 * 17 * 257 * 65537) :
    p = 3 ∨ p = 5 ∨ p = 17 ∨ p = 257 ∨ p = 65537 := by
  have hsame : ∀ {q : Nat}, q.Prime → p ∣ q → p = q := fun hq => (Nat.prime_dvd_prime_iff_eq hp hq).mp
  rcases hp.dvd_mul.mp h with h | h
  · rcases hp.dvd_mul.mp h with h | h
    · rcases hp.dvd_mul.mp h with h | h
      · rcases hp.dvd_mul.mp h with h | h
        · exact .inl (hsame (by norm_num) h)
        · exact .inr (.inl (hsame (by norm_num) h))
      · exact .inr (.inr (.inl (hsame (by norm_num) h)))
    · exact .inr (.inr (.inr (.inl (hsame (by norm_num) h))))
  · exact .inr (.inr (.inr (.inr (hsame (by norm_num) h))))

/-- The period of `x` is the longest that 32 bits allow, which is `2 ^ 32 - 1`. -/
theorem poly_period :
    Function.minimalPeriod (bitStep poly) one = 3 * 5 * 17 * 257 * 65537 := by
  have hsame : ∀ n < 2 ^ 32, Function.IsPeriodicPt (bitStep poly) n one ↔ fastPower poly 32 n = one :=
    fun n hn => by rw [fastPower_eq poly 32 n hn]; rfl
  refine minimalPeriod_eq ((hsame _ (by decide)).mpr (by decide +kernel)) fun p hp hdvd => ?_
  rcases prime_factors hp hdvd with rfl | rfl | rfl | rfl | rfl <;>
    exact mt (hsame _ (by decide)).mp (by decide +kernel)

/-! ## Bits of packets -/

/-- The number of bits in which two byte strings of one length differ. -/
def bitDistance (xs ys : Bytes) : Nat :=
  (List.zipWith (fun x y => (setBits (x ^^^ y).toBitVec).length) xs ys).sum

theorem weight_toBitVec (xs ys : Bytes) :
    weight (List.zipWith (· ^^^ ·) (xs.map (·.toBitVec)) (ys.map (·.toBitVec))) = bitDistance xs ys := by
  rw [weight, bitDistance, List.zipWith_map, List.map_zipWith]
  rfl

theorem bitDistance_append {xs ys : Bytes} (h : xs.length = ys.length) (xs' ys' : Bytes) :
    bitDistance (xs ++ xs') (ys ++ ys') = bitDistance xs ys + bitDistance xs' ys' := by
  rw [bitDistance, List.zipWith_append h, List.sum_append]
  rfl

theorem eq_of_bitDistance {xs ys : Bytes} (hlen : xs.length = ys.length) (h : bitDistance xs ys = 0) :
    xs = ys := by
  induction xs generalizing ys with
  | nil => exact (List.length_eq_zero_iff.mp hlen.symm).symm
  | cons x xs ih =>
    obtain ⟨y, ys, rfl⟩ := List.exists_cons_of_length_eq_add_one hlen.symm
    have hsum : (setBits (x ^^^ y).toBitVec).length + bitDistance xs ys = 0 := h
    obtain ⟨hfirst, hrest⟩ := Nat.add_eq_zero_iff.mp hsum
    have hzero := setBits_eq_nil (List.length_eq_zero_iff.mp hfirst)
    rw [UInt8.toBitVec_xor, BitVec.xor_eq_zero_iff, UInt8.toBitVec_inj] at hzero
    rw [hzero, ih (Nat.succ.inj hlen) hrest]

/-- The bits that are set in a byte of a word, counted from the low end. -/
def octetBits (x : BitVec 32) (k : Nat) : Nat :=
  ((List.range 8).filter fun i => x.getLsbD (8 * k + i)).length

theorem setBits_octets (x : BitVec 32) :
    (setBits x).length = octetBits x 0 + octetBits x 1 + octetBits x 2 + octetBits x 3 := by
  have hadd : ∀ n (f : Nat → Bool), ((List.range (n + 8)).filter f).length =
      ((List.range n).filter f).length + ((List.range 8).filter fun i => f (n + i)).length := fun n f => by
    rw [List.range_add, List.filter_append, List.length_append, List.filter_map, List.length_map]
    rfl
  have hfirst : octetBits x 0 = ((List.range 8).filter fun i => x.getLsbD i).length := by
    simp only [octetBits, Nat.mul_zero, Nat.zero_add]
  have hrange : (setBits x).length = ((List.range (8 + 8 + 8 + 8)).filter fun i => x.getLsbD i).length := rfl
  rw [hrange, hadd, hadd, hadd, hfirst]
  rfl

theorem setBits_octet (u v : UInt32) (k : Nat) :
    (setBits (UInt8.ofNat (u.toNat / 2 ^ (8 * k)) ^^^ UInt8.ofNat (v.toNat / 2 ^ (8 * k))).toBitVec).length =
      octetBits (u ^^^ v).toBitVec k := by
  have hbyte : ∀ (w : UInt32), ∀ i < 8, (UInt8.ofNat (w.toNat / 2 ^ (8 * k))).toBitVec.getLsbD i =
      w.toBitVec.getLsbD (8 * k + i) := fun w i hi => by
    have hof : (UInt8.ofNat (w.toNat / 2 ^ (8 * k))).toBitVec = BitVec.ofNat 8 (w.toNat / 2 ^ (8 * k)) := rfl
    rw [hof, BitVec.getLsbD_ofNat, decide_eq_true hi, Bool.true_and, Nat.testBit_div_two_pow,
      Nat.add_comm]
    rfl
  refine congrArg List.length (List.filter_congr fun i hi => ?_)
  have hi := List.mem_range.mp hi
  rw [UInt8.toBitVec_xor, BitVec.getLsbD_xor, hbyte u i hi, hbyte v i hi, UInt32.toBitVec_xor,
    BitVec.getLsbD_xor]

theorem bitDistance_be32 (u v : UInt32) :
    bitDistance (be32 u) (be32 v) = (setBits (u ^^^ v).toBitVec).length := by
  have hbytes : ∀ v : UInt32, be32 v = [UInt8.ofNat (v.toNat / 2 ^ (8 * 3)),
      UInt8.ofNat (v.toNat / 2 ^ (8 * 2)), UInt8.ofNat (v.toNat / 2 ^ (8 * 1)),
      UInt8.ofNat (v.toNat / 2 ^ (8 * 0))] := fun v => by
    simp only [be32, Nat.mul_zero, Nat.mul_one, Nat.pow_zero, Nat.div_one]
    rfl
  rw [hbytes u, hbytes v, bitDistance]
  simp only [List.zipWith_cons_cons, List.zipWith_nil_left, List.sum_cons, List.sum_nil, setBits_octet,
    setBits_octets]
  omega

theorem crc32_distance (xs ys : Bytes) (f g : UInt32) (hlen : xs.length = ys.length)
    (hfit : xs.length ≤ 65555) (hsame : crc32 xs ^^^ f = crc32 ys ^^^ g)
    (hne : bitDistance xs ys + (setBits (f ^^^ g).toBitVec).length ≠ 0) :
    3 ≤ bitDistance xs ys + (setBits (f ^^^ g).toBitVec).length := by
  have hregister := congrArg UInt32.toBitVec hsame
  rw [UInt32.toBitVec_xor, UInt32.toBitVec_xor, crc32_toBitVec, crc32_toBitVec, BitVec.xor_assoc,
    BitVec.xor_assoc] at hregister
  have hchecks := xor_fold_both 0xFFFFFFFF f.toBitVec g.toBitVec
  rw [← weight_toBitVec, UInt32.toBitVec_xor, ← hchecks] at hne ⊢
  refine three_le_distance poly (by decide) (by decide) 0xFFFFFFFF _ _ (by simpa using hlen) ?_ hregister hne
  rw [poly_period, List.length_map]
  omega

/-! ## Packets -/

theorem Accepts.around {buf : Bytes} {p : ParsedPacket} (h : Accepts buf p) :
    buf = buf.take 16 ++ be32 (getU32 buf 16) ++ buf.drop 20 ∧
      crc32 (buf.take 16 ++ be32 0 ++ buf.drop 20) = getU32 buf 16 := by
  have hsize := h.size
  unfold kHeaderSize at hsize
  refine ⟨?_, h.crc⟩
  rw [getU32, be32_read32 buf 16 (by omega), slice, take_append_middle]

/-- **Distance.** No change of one or two bits, wherever they are, makes a packet that is accepted into
another one that is. -/
theorem two_bits_detected (packet buf : Bytes) (p : ParsedPacket) (h : parsePacket packet = some p)
    (hlen : buf.length = packet.length) (hne : buf ≠ packet) (hfew : bitDistance packet buf ≤ 2) :
    parsePacket buf = none := by
  rw [Option.eq_none_iff_forall_ne_some]
  intro q hq
  have hp := (parsePacket_eq_some_iff packet p).mp h
  have hq := (parsePacket_eq_some_iff buf q).mp hq
  obtain ⟨hpacket, hcrc⟩ := hp.around
  obtain ⟨hbuf, hcrc'⟩ := hq.around
  have hfront : (packet.take 16).length = (buf.take 16).length := by
    rw [List.length_take, List.length_take, hlen]
  have hparts : ∀ u v : UInt32, bitDistance (packet.take 16 ++ be32 u ++ packet.drop 20)
      (buf.take 16 ++ be32 v ++ buf.drop 20) = bitDistance (packet.take 16) (buf.take 16) +
        (setBits (u ^^^ v).toBitVec).length + bitDistance (packet.drop 20) (buf.drop 20) := fun u v => by
    rw [bitDistance_append (by rw [List.length_append, List.length_append, hfront]; rfl),
      bitDistance_append hfront, bitDistance_be32]
  have hwhole := hparts (getU32 packet 16) (getU32 buf 16)
  rw [← hpacket, ← hbuf] at hwhole
  have hzeroed := hparts 0 0
  have hnothing : (setBits (0 ^^^ 0 : UInt32).toBitVec).length = 0 := by decide
  rw [hnothing, Nat.add_zero] at hzeroed
  have hchecks : crc32 (packet.take 16 ++ be32 0 ++ packet.drop 20) ^^^ getU32 packet 16 =
      crc32 (buf.take 16 ++ be32 0 ++ buf.drop 20) ^^^ getU32 buf 16 := by
    rw [hcrc, hcrc', UInt32.xor_self, UInt32.xor_self]
  have hthree := crc32_distance _ _ _ _ ?_ ?_ hchecks ?_
  · omega
  · simp only [List.length_append, List.length_take, List.length_drop, hlen, be32_length]
  · have htotal := hp.len
    have hfield := (getU16 packet 12).toNat_lt
    simp only [List.length_append, List.length_take, List.length_drop, be32_length]
    unfold kHeaderSize at htotal
    omega
  · have hdiffer : bitDistance packet buf ≠ 0 := fun h0 => hne (eq_of_bitDistance hlen.symm h0).symm
    omega

theorem two_bits_detected_abc :
    parsePacket (((buildPacket .data 7 (some [97, 98, 99]) 3).set 11 6).set 22 98) = none :=
  two_bits_detected _ _ _ (parse_build .data 7 [97, 98, 99] 3 rfl)
    (by rw [List.length_set, List.length_set]) (by decide +kernel) (by decide +kernel)

end Rdtp
