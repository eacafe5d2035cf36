import Mathlib.Logic.Function.Iterate

/-!
# Reflected cyclic redundancy checks

A register of `w` bits takes its message in at the low end and shifts right. One
bit step is linear over exclusive or, and one to one when the polynomial has its
top bit set. So a run of bytes no longer than the register is recoverable from
the register after it: that is burst detection.
-/

namespace Lib.Crc

variable {w : Nat}

/-! ## One bit -/

/-- Shifts one bit out, and folds the polynomial in when that bit was 1. -/
def bitStep (poly c : BitVec w) : BitVec w :=
  if c.getLsbD 0 then poly ^^^ (c >>> 1) else c >>> 1

theorem xor_fold_both (p a b : BitVec w) : p ^^^ a ^^^ (p ^^^ b) = a ^^^ b := by
  rw [BitVec.xor_comm p a, BitVec.xor_assoc, ← BitVec.xor_assoc p p b, BitVec.xor_self,
    BitVec.zero_xor]

theorem bitStep_xor (poly a b : BitVec w) :
    bitStep poly (a ^^^ b) = bitStep poly a ^^^ bitStep poly b := by
  unfold bitStep
  simp only [BitVec.getLsbD_xor, BitVec.ushiftRight_xor_distrib]
  cases a.getLsbD 0 <;> cases b.getLsbD 0 <;> simp
  · rw [← BitVec.xor_assoc, BitVec.xor_comm poly, BitVec.xor_assoc]
  · rw [BitVec.xor_assoc]
  · rw [xor_fold_both]

theorem bitStep_msb (poly c : BitVec w) (hp : poly.msb = true) :
    (bitStep poly c).msb = c.getLsbD 0 := by
  have hshift : (c >>> 1).msb = false := by simp [BitVec.msb_ushiftRight]
  unfold bitStep
  cases c.getLsbD 0
  · simp
  · simp [BitVec.msb_xor, hp, hshift]

theorem eq_of_ushiftRight_one (a b : BitVec w) (h0 : a.getLsbD 0 = b.getLsbD 0)
    (h : a >>> 1 = b >>> 1) : a = b := by
  apply BitVec.eq_of_getLsbD_eq
  intro i _
  rcases i with _ | i
  · exact h0
  · have hi := congrArg (BitVec.getLsbD · i) h
    simpa [BitVec.getLsbD_ushiftRight, Nat.add_comm] using hi

theorem bitStep_injective (poly : BitVec w) (hp : poly.msb = true) :
    Function.Injective (bitStep poly) := by
  intro a b h
  have h0 : a.getLsbD 0 = b.getLsbD 0 := by
    rw [← bitStep_msb poly a hp, ← bitStep_msb poly b hp, h]
  apply eq_of_ushiftRight_one a b h0
  unfold bitStep at h
  rw [← h0] at h
  cases ha : a.getLsbD 0 <;> simpa [ha] using h

/-! ## Many bits -/

def bitSteps (poly : BitVec w) (n : Nat) (c : BitVec w) : BitVec w := (bitStep poly)^[n] c

theorem bitSteps_add (poly : BitVec w) (m n : Nat) (c : BitVec w) :
    bitSteps poly (m + n) c = bitSteps poly m (bitSteps poly n c) :=
  Function.iterate_add_apply _ m n c

theorem bitSteps_injective (poly : BitVec w) (hp : poly.msb = true) (n : Nat) :
    Function.Injective (bitSteps poly n) :=
  (bitStep_injective poly hp).iterate n

theorem bitSteps_xor (poly : BitVec w) (n : Nat) (a b : BitVec w) :
    bitSteps poly n (a ^^^ b) = bitSteps poly n a ^^^ bitSteps poly n b := by
  induction n with
  | zero => rfl
  | succ n ih =>
    simp only [bitSteps, Function.iterate_succ_apply'] at ih ⊢
    rw [ih, bitStep_xor]

theorem bitSteps_of_low_zero (poly c : BitVec w) (n : Nat)
    (h : ∀ i < n, c.getLsbD i = false) : bitSteps poly n c = c >>> n := by
  induction n with
  | zero => simp [bitSteps]
  | succ n ih =>
    have hn : (c >>> n).getLsbD 0 = false := by simpa using h n (Nat.lt_succ_self n)
    have ih := ih (fun i hi => h i (Nat.lt_succ_of_lt hi))
    rw [Nat.add_comm, bitSteps_add, ih, Nat.add_comm, BitVec.shiftRight_add]
    simp only [bitSteps, Function.iterate_one, bitStep, hn, Bool.false_eq_true, if_false]

/-! ## Bytes -/

def lowByte (b : BitVec 8) : BitVec w := b.setWidth w

/-- The register after one byte, a bit at a time. -/
def byteStep (poly c : BitVec w) (b : BitVec 8) : BitVec w := bitSteps poly 8 (c ^^^ lowByte b)

def register (poly c : BitVec w) (bytes : List (BitVec 8)) : BitVec w :=
  bytes.foldl (byteStep poly) c

theorem register_append (poly c : BitVec w) (xs ys : List (BitVec 8)) :
    register poly c (xs ++ ys) = register poly (register poly c xs) ys :=
  List.foldl_append

theorem register_injective (poly : BitVec w) (hp : poly.msb = true) (bytes : List (BitVec 8)) :
    Function.Injective (fun c => register poly c bytes) := by
  induction bytes with
  | nil => exact fun a b h => h
  | cons x bytes ih =>
    intro a b h
    have h8 : byteStep poly a x = byteStep poly b x := ih h
    have hx : a ^^^ lowByte x = b ^^^ lowByte x := bitSteps_injective poly hp 8 h8
    exact (BitVec.xor_left_inj _).mp hx

/-- The first byte lowest, each next byte eight bits up. -/
def pack : List (BitVec 8) → BitVec w
  | [] => 0
  | b :: bytes => lowByte b ^^^ (pack bytes <<< 8)

theorem pack_shift_low (bytes : List (BitVec 8)) :
    ∀ i < 8, ((pack bytes : BitVec w) <<< 8).getLsbD i = false := by
  intro i hi
  simp [BitVec.getLsbD_shiftLeft, hi]

theorem pack_getLsbD_high (bytes : List (BitVec 8)) (i : Nat) (h : 8 * bytes.length ≤ i) :
    (pack bytes : BitVec w).getLsbD i = false := by
  induction bytes generalizing i with
  | nil => simp [pack]
  | cons b bytes ih =>
    simp only [List.length_cons] at h
    have hb : b.getLsbD i = false := BitVec.getLsbD_of_ge b i (by omega)
    simp [pack, lowByte, BitVec.getLsbD_setWidth, BitVec.getLsbD_shiftLeft, hb,
      ih (i - 8) (by omega)]

theorem pack_shift_back (bytes : List (BitVec 8)) (h : 8 * (bytes.length + 1) ≤ w) :
    ((pack bytes : BitVec w) <<< 8) >>> 8 = pack bytes := by
  apply BitVec.eq_of_getLsbD_eq
  intro i _
  simp only [BitVec.getLsbD_ushiftRight, BitVec.getLsbD_shiftLeft]
  by_cases hi : 8 + i < w
  · simp [hi]
  · simp [hi, pack_getLsbD_high bytes i (by omega)]

theorem register_eq_pack (poly c : BitVec w) (bytes : List (BitVec 8))
    (h : 8 * bytes.length ≤ w) :
    register poly c bytes = bitSteps poly (8 * bytes.length) (c ^^^ pack bytes) := by
  induction bytes generalizing c with
  | nil => simp [register, bitSteps, pack]
  | cons b bytes ih =>
    simp only [List.length_cons] at h
    have hrest : pack bytes = bitSteps poly 8 ((pack bytes : BitVec w) <<< 8) := by
      rw [bitSteps_of_low_zero poly _ 8 (pack_shift_low bytes), pack_shift_back bytes h]
    calc register poly c (b :: bytes)
        = register poly (byteStep poly c b) bytes := rfl
      _ = bitSteps poly (8 * bytes.length) (byteStep poly c b ^^^ pack bytes) :=
          ih _ (by omega)
      _ = bitSteps poly (8 * bytes.length)
            (bitSteps poly 8 ((c ^^^ lowByte b) ^^^ (pack bytes <<< 8))) := by
          rw [bitSteps_xor poly 8, ← hrest]; rfl
      _ = bitSteps poly (8 * (bytes.length + 1)) (c ^^^ pack (b :: bytes)) := by
          rw [← bitSteps_add, Nat.mul_succ, pack, BitVec.xor_assoc]

theorem lowByte_getLsbD (b : BitVec 8) (h : 8 ≤ w) (i : Nat) (hi : i < 8) :
    (lowByte b : BitVec w).getLsbD i = b.getLsbD i := by
  simp [lowByte, show i < w by omega]

theorem pack_injective (xs ys : List (BitVec 8)) (hlen : xs.length = ys.length)
    (hfit : 8 * xs.length ≤ w) (h : (pack xs : BitVec w) = pack ys) : xs = ys := by
  induction xs generalizing ys with
  | nil => exact (List.length_eq_zero_iff.mp hlen.symm).symm
  | cons x xs ih =>
    obtain ⟨y, ys, rfl⟩ := List.exists_cons_of_length_eq_add_one hlen.symm
    simp only [List.length_cons] at hlen hfit
    have hxy : x = y := by
      apply BitVec.eq_of_getLsbD_eq
      intro i hi
      have hi' := congrArg (BitVec.getLsbD · i) h
      simpa [pack, pack_shift_low _ i hi, lowByte_getLsbD _ (by omega : 8 ≤ w) i hi] using hi'
    subst hxy
    have hshift : (pack xs : BitVec w) <<< 8 = pack ys <<< 8 := by
      simpa [pack, BitVec.xor_right_inj] using h
    have hrest : (pack xs : BitVec w) = pack ys := by
      rw [← pack_shift_back xs (by omega), ← pack_shift_back ys (by omega), hshift]
    rw [ih ys (by omega) (by omega) hrest]

/-- **Burst detection.** Two messages that differ, and differ only inside a stretch that fits the
register, leave different registers. -/
theorem register_ne_of_burst (poly c : BitVec w) (hp : poly.msb = true)
    (pre xs ys post : List (BitVec 8)) (hlen : xs.length = ys.length)
    (hfit : 8 * xs.length ≤ w) (hne : xs ≠ ys) :
    register poly c (pre ++ xs ++ post) ≠ register poly c (pre ++ ys ++ post) := by
  intro h
  simp only [register_append] at h
  have hmid := register_injective poly hp post h
  rw [register_eq_pack _ _ xs hfit, register_eq_pack _ _ ys (by omega), hlen] at hmid
  have hpack : (pack xs : BitVec w) = pack ys :=
    (BitVec.xor_right_inj _).mp (bitSteps_injective poly hp _ hmid)
  exact hne (pack_injective xs ys hlen hfit hpack)

/-! ## The table -/

theorem split_low_byte (x : BitVec w) : x = (x &&& lowByte 255) ^^^ (x &&& ~~~lowByte 255) := by
  ext i hi
  simp only [BitVec.getElem_xor, BitVec.getElem_and, BitVec.getElem_not]
  cases x[i] <;> cases (lowByte 255 : BitVec w)[i] <;> rfl

theorem lowByte_mask_getLsbD (i : Nat) :
    (lowByte 255 : BitVec w).getLsbD i = (decide (i < w) && decide (i < 8)) := by
  have h255 : (255#8).getLsbD i = decide (i < 8) := by
    rw [show (255#8) = BitVec.allOnes 8 from rfl, BitVec.getLsbD_allOnes]
  simp [lowByte, BitVec.getLsbD_setWidth, h255]

/-- **A byte from the table.** Eight steps are the eight steps of the low byte, folded into the
rest moved down. -/
theorem bitSteps_eight (poly x : BitVec w) :
    bitSteps poly 8 x = bitSteps poly 8 (x &&& lowByte 255) ^^^ (x >>> 8) := by
  have hlow : ∀ i < 8, (x &&& ~~~lowByte 255).getLsbD i = false := by
    intro i hi
    simp only [BitVec.getLsbD_and, BitVec.getLsbD_not, lowByte_mask_getLsbD]
    by_cases hw : i < w <;> simp [hw, hi]
  have hrest : (x &&& ~~~lowByte 255) >>> 8 = x >>> 8 := by
    apply BitVec.eq_of_getLsbD_eq
    intro i _
    simp only [BitVec.getLsbD_ushiftRight, BitVec.getLsbD_and, BitVec.getLsbD_not,
      lowByte_mask_getLsbD]
    by_cases hw : 8 + i < w
    · simp [hw]
    · simp [BitVec.getLsbD_of_ge x (8 + i) (by omega)]
  conv => lhs; rw [split_low_byte x]
  rw [bitSteps_xor, bitSteps_of_low_zero poly _ 8 hlow, hrest]

end Lib.Crc
