import Mathlib.Data.Nat.Prime.Basic
import Mathlib.Dynamics.PeriodicPts.Defs
import Mathlib.Tactic.Common
import ComputerNetworks.Lib.Crc

/-!
# Powers of `x`

Each bit of a message comes into a reflected register as a power of `x`, and each bit of a checksum is
one. Two bits cancel only where their powers are the same, so not within the period of `x`: there,
messages with right checksums are at least three bits apart.
-/

namespace Lib.Crc

variable {w : Nat} (poly : BitVec w)

/-! ## Sums -/

def xorAll (xs : List (BitVec w)) : BitVec w := xs.foldr (· ^^^ ·) 0#w

theorem xorAll_append (xs ys : List (BitVec w)) : xorAll (xs ++ ys) = xorAll xs ^^^ xorAll ys := by
  induction xs with
  | nil => exact (BitVec.zero_xor).symm
  | cons x xs ih =>
    change x ^^^ xorAll (xs ++ ys) = x ^^^ xorAll xs ^^^ xorAll ys
    rw [ih, BitVec.xor_assoc]

theorem bitSteps_zero (n : Nat) : bitSteps poly n 0#w = 0#w := by
  rw [bitSteps_of_low_zero poly 0#w n fun i _ => BitVec.getLsbD_zero]
  exact BitVec.zero_ushiftRight

theorem bitSteps_xorAll (n : Nat) (xs : List (BitVec w)) :
    bitSteps poly n (xorAll xs) = xorAll (xs.map (bitSteps poly n)) := by
  induction xs with
  | nil => exact bitSteps_zero poly n
  | cons x xs ih =>
    change bitSteps poly n (x ^^^ xorAll xs) = bitSteps poly n x ^^^ xorAll (xs.map _)
    rw [bitSteps_xor, ih]

/-- The places of the bits that are set. -/
def setBits (x : BitVec w) : List Nat := (List.range w).filter fun i => x.getLsbD i

theorem mem_setBits {x : BitVec w} {i : Nat} : i ∈ setBits x ↔ x.getLsbD i = true := by
  rw [setBits, List.mem_filter, List.mem_range]
  exact ⟨fun h => h.2, fun h => ⟨BitVec.lt_of_getLsbD h, h⟩⟩

theorem setBits_lt {x : BitVec w} {i : Nat} (h : i ∈ setBits x) : i < w :=
  BitVec.lt_of_getLsbD (mem_setBits.mp h)

theorem setBits_nodup (x : BitVec w) : (setBits x).Nodup := List.nodup_range.filter _

theorem setBits_eq_nil {x : BitVec w} (h : setBits x = []) : x = 0#w := by
  apply BitVec.eq_of_getLsbD_eq
  intro i _
  rw [BitVec.getLsbD_zero, Bool.eq_false_iff]
  exact fun hbit => List.not_mem_nil (h ▸ mem_setBits.mpr hbit)

theorem getLsbD_xorAll {places : List Nat} (hnodup : places.Nodup) (hlt : ∀ i ∈ places, i < w) (j : Nat) :
    (xorAll (places.map (BitVec.twoPow w))).getLsbD j = decide (j ∈ places) := by
  induction places with
  | nil => exact BitVec.getLsbD_zero
  | cons i places ih =>
    obtain ⟨hnew, hnodup⟩ := List.nodup_cons.mp hnodup
    have ih := ih hnodup fun i hi => hlt i (List.mem_cons_of_mem _ hi)
    change (BitVec.twoPow w i ^^^ xorAll (places.map (BitVec.twoPow w))).getLsbD j = _
    rw [BitVec.getLsbD_xor, ih, BitVec.getLsbD_twoPow, decide_eq_true (hlt i List.mem_cons_self)]
    by_cases hij : i = j
    · subst hij
      simp [hnew]
    · simp [hij, Ne.symm hij]

theorem xorAll_setBits (x : BitVec w) : xorAll ((setBits x).map (BitVec.twoPow w)) = x := by
  apply BitVec.eq_of_getLsbD_eq
  intro j _
  rw [getLsbD_xorAll (setBits_nodup x) fun i => setBits_lt]
  by_cases hj : x.getLsbD j = true
  · rw [decide_eq_true (mem_setBits.mpr hj), hj]
  · rw [decide_eq_false fun hmem => hj (mem_setBits.mp hmem), Bool.eq_false_iff.mpr hj]

/-! ## Powers -/

/-- `1` has its bit at the top. -/
def one : BitVec w := .twoPow w (w - 1)

def power (n : Nat) : BitVec w := bitSteps poly n one

theorem one_ne_zero (hw : 0 < w) : (one : BitVec w) ≠ 0#w := by
  intro h
  have htop := congrArg (BitVec.getLsbD · (w - 1)) h
  simp [one, hw] at htop

theorem power_ne_zero (hp : poly.msb = true) (hw : 0 < w) (n : Nat) : power poly n ≠ 0#w := by
  intro h
  exact one_ne_zero hw (bitSteps_injective poly hp n (h.trans (bitSteps_zero poly n).symm))

theorem twoPow_eq_power {i : Nat} (hi : i < w) : BitVec.twoPow w i = power poly (w - 1 - i) := by
  have hlow : ∀ j < w - 1 - i, (one : BitVec w).getLsbD j = false := fun j hj => by
    rw [one, BitVec.getLsbD_twoPow]
    simp only [Bool.and_eq_false_iff, decide_eq_false_iff_not]
    right
    omega
  rw [power, bitSteps_of_low_zero poly one _ hlow]
  apply BitVec.eq_of_getLsbD_eq
  intro j _
  rw [BitVec.getLsbD_ushiftRight, one, BitVec.getLsbD_twoPow, BitVec.getLsbD_twoPow, decide_eq_true hi,
    decide_eq_true (show w - 1 < w by omega), Bool.true_and, Bool.true_and, decide_eq_decide]
  omega

theorem eq_powers (x : BitVec w) : xorAll ((setBits x).map fun i => power poly (w - 1 - i)) = x := by
  have hmap : (setBits x).map (fun i => power poly (w - 1 - i)) = (setBits x).map (BitVec.twoPow w) :=
    List.map_congr_left fun i hi => (twoPow_eq_power poly (setBits_lt hi)).symm
  rw [hmap, xorAll_setBits]

/-! ## Products -/

/-- The product of two registers, as polynomials. -/
def mul (a b : BitVec w) : BitVec w := xorAll ((setBits a).map fun i => bitSteps poly (w - 1 - i) b)

theorem bitSteps_eq_mul (n : Nat) (a : BitVec w) : bitSteps poly n a = mul poly a (power poly n) := by
  conv_lhs => rw [← eq_powers poly a]
  rw [bitSteps_xorAll, List.map_map, mul]
  congr 2
  funext i
  simp only [Function.comp_apply, power]
  rw [← bitSteps_add, ← bitSteps_add, Nat.add_comm]

theorem power_add (m n : Nat) : power poly (m + n) = mul poly (power poly n) (power poly m) := by
  rw [power, bitSteps_add, bitSteps_eq_mul]
  rfl

/-- A power whose exponent has at most so many binary digits, by squaring. -/
def fastPower : Nat → Nat → BitVec w
  | 0, _ => one
  | digits + 1, n =>
    let root := fastPower digits (n / 2)
    if n % 2 = 1 then bitStep poly (mul poly root root) else mul poly root root

theorem fastPower_eq (digits : Nat) : ∀ n < 2 ^ digits, fastPower poly digits n = power poly n := by
  induction digits with
  | zero =>
    intro n hn
    rw [Nat.lt_one_iff.mp hn]
    rfl
  | succ digits ih =>
    intro n hn
    rw [Nat.pow_succ] at hn
    have hroot := ih (n / 2) (by omega)
    have hsquare : mul poly (fastPower poly digits (n / 2)) (fastPower poly digits (n / 2)) =
        power poly (n / 2 + n / 2) := by
      rw [hroot, power_add]
    rw [fastPower, hsquare]
    split
    · have hodd : n = 1 + (n / 2 + n / 2) := by omega
      conv_rhs => rw [hodd, power, bitSteps_add]
      rfl
    · have heven : n / 2 + n / 2 = n := by omega
      rw [heven]

/-! ## The period -/

open Function in
/-- A period of which no proper part that leaves out one prime is a period is the least one. -/
theorem minimalPeriod_eq {α : Type*} {f : α → α} {x : α} {n : Nat}
    (hperiod : IsPeriodicPt f n x) (hparts : ∀ p, p.Prime → p ∣ n → ¬ IsPeriodicPt f (n / p) x) :
    minimalPeriod f x = n := by
  obtain ⟨k, hk⟩ := hperiod.minimalPeriod_dvd
  by_contra hne
  have hone : k ≠ 1 := by
    rintro rfl
    exact hne (by rw [Nat.mul_one] at hk; exact hk.symm)
  obtain ⟨p, hp, q, rfl⟩ := Nat.exists_prime_and_dvd hone
  refine hparts p hp ⟨minimalPeriod f x * q, by rw [hk]; exact Nat.mul_left_comm _ _ _⟩ ?_
  refine isPeriodicPt_iff_minimalPeriod_dvd.mpr ⟨q, Nat.div_eq_of_eq_mul_left hp.pos ?_⟩
  rw [hk, Nat.mul_comm p q, Nat.mul_assoc]

theorem power_inj {m n : Nat} (hm : m < Function.minimalPeriod (bitStep poly) one)
    (hn : n < Function.minimalPeriod (bitStep poly) one) (h : power poly m = power poly n) : m = n :=
  (Function.iterate_eq_iterate_iff_of_lt_minimalPeriod hm hn).mp h

theorem three_le_of_cancel (hp : poly.msb = true) (hw : 0 < w) {exponents : List Nat}
    (hnodup : exponents.Nodup) (hlt : ∀ k ∈ exponents, k < Function.minimalPeriod (bitStep poly) one)
    (hcancel : xorAll (exponents.map (power poly)) = 0#w) (hne : exponents ≠ []) :
    3 ≤ exponents.length := by
  match exponents with
  | [] => exact absurd rfl hne
  | [k] =>
    have hone : power poly k ^^^ 0#w = 0#w := hcancel
    rw [BitVec.xor_zero] at hone
    exact absurd hone (power_ne_zero poly hp hw k)
  | [j, k] =>
    have htwo : power poly j ^^^ (power poly k ^^^ 0#w) = 0#w := hcancel
    rw [BitVec.xor_zero, BitVec.xor_eq_zero_iff] at htwo
    have hjk := power_inj poly (hlt j (by simp)) (hlt k (by simp)) htwo
    rw [hjk] at hnodup
    simp at hnodup
  | _ :: _ :: _ :: _ => simp

/-! ## Messages -/

/-- The powers that the bits of a message come to, the first byte highest. -/
def exponents (w : Nat) : List (BitVec 8) → List Nat
  | [] => []
  | b :: bytes => (setBits b).map (fun i => 8 * (bytes.length + 1) + (w - 1 - i)) ++ exponents w bytes

def weight (bytes : List (BitVec 8)) : Nat := (bytes.map fun b => (setBits b).length).sum

theorem exponents_length (bytes : List (BitVec 8)) : (exponents w bytes).length = weight bytes := by
  induction bytes with
  | nil => rfl
  | cons b bytes ih =>
    rw [exponents, List.length_append, List.length_map, ih]
    rfl

theorem exponents_bounds (hw : 8 ≤ w) (bytes : List (BitVec 8)) :
    ∀ k ∈ exponents w bytes, w ≤ k ∧ k < 8 * bytes.length + w := by
  induction bytes with
  | nil => nofun
  | cons b bytes ih =>
    intro k hk
    rw [List.length_cons]
    rcases List.mem_append.mp hk with hk | hk
    · obtain ⟨i, hi, rfl⟩ := List.mem_map.mp hk
      have := setBits_lt hi
      omega
    · have := ih k hk
      omega

theorem exponents_nodup (hw : 8 ≤ w) (bytes : List (BitVec 8)) : (exponents w bytes).Nodup := by
  induction bytes with
  | nil => exact List.nodup_nil
  | cons b bytes ih =>
    refine List.nodup_append.mpr ⟨?_, ih, ?_⟩
    · refine List.Nodup.map_on (fun i hi j hj hij => ?_) (setBits_nodup b)
      have := setBits_lt hi
      have := setBits_lt hj
      omega
    · intro k hk l hl hkl
      obtain ⟨i, hi, rfl⟩ := List.mem_map.mp hk
      have := setBits_lt hi
      have := (exponents_bounds hw bytes l hl).2
      omega

theorem register_split (c : BitVec w) (bytes : List (BitVec 8)) :
    register poly c bytes = bitSteps poly (8 * bytes.length) c ^^^ register poly 0#w bytes := by
  induction bytes generalizing c with
  | nil => exact (BitVec.xor_zero).symm
  | cons b bytes ih =>
    have hstep : byteStep poly c b = bitSteps poly 8 c ^^^ byteStep poly 0#w b := by
      rw [byteStep, byteStep, bitSteps_xor, BitVec.zero_xor]
    change register poly (byteStep poly c b) bytes = _ ^^^ register poly (byteStep poly 0#w b) bytes
    rw [ih, ih (byteStep poly 0#w b), hstep, bitSteps_xor, List.length_cons, Nat.mul_succ, bitSteps_add,
      BitVec.xor_assoc]

theorem register_exponents (hw : 8 ≤ w) (bytes : List (BitVec 8)) :
    register poly 0#w bytes = xorAll ((exponents w bytes).map (power poly)) := by
  induction bytes with
  | nil => rfl
  | cons b bytes ih =>
    have hbits : setBits (lowByte b : BitVec w) = setBits b := by
      have hsame : ∀ i, (lowByte b : BitVec w).getLsbD i = b.getLsbD i := fun i => by
        by_cases hi : i < 8
        · exact lowByte_getLsbD b hw i hi
        · rw [lowByte, BitVec.getLsbD_setWidth, BitVec.getLsbD_of_ge b i (by omega), Bool.and_false]
      obtain ⟨k, rfl⟩ := Nat.exists_eq_add_of_le hw
      simp only [setBits, hsame, List.range_add, List.filter_append, List.filter_map]
      have hhigh : (List.range k).filter ((fun i => b.getLsbD i) ∘ (8 + ·)) = [] :=
        List.filter_eq_nil_iff.mpr fun i _ => by
          rw [Function.comp_apply, BitVec.getLsbD_of_ge b (8 + i) (by omega)]
          exact Bool.false_ne_true
      rw [hhigh, List.map_nil, List.append_nil]
    have hfirst : bitSteps poly (8 * bytes.length) (byteStep poly 0#w b) =
        xorAll ((setBits b).map fun i => power poly (8 * (bytes.length + 1) + (w - 1 - i))) := by
      rw [byteStep, BitVec.zero_xor, ← bitSteps_add, ← Nat.mul_succ]
      conv_lhs => rw [← eq_powers poly (lowByte b)]
      rw [bitSteps_xorAll, List.map_map, hbits]
      congr 2
      funext i
      simp only [Function.comp_apply, power]
      rw [← bitSteps_add]
    change register poly (byteStep poly 0#w b) bytes = _
    rw [register_split, hfirst, ih, exponents, List.map_append, xorAll_append, List.map_map]
    rfl

theorem register_xor {xs ys : List (BitVec 8)} (hlen : xs.length = ys.length) (c d : BitVec w) :
    register poly c xs ^^^ register poly d ys = register poly (c ^^^ d) (List.zipWith (· ^^^ ·) xs ys) := by
  induction xs generalizing ys c d with
  | nil =>
    obtain rfl := List.length_eq_zero_iff.mp hlen.symm
    rfl
  | cons x xs ih =>
    obtain ⟨y, ys, rfl⟩ := List.exists_cons_of_length_eq_add_one hlen.symm
    have hbyte : byteStep poly c x ^^^ byteStep poly d y = byteStep poly (c ^^^ d) (x ^^^ y) := by
      have hlow : (lowByte (x ^^^ y) : BitVec w) = lowByte x ^^^ lowByte y := BitVec.setWidth_xor
      rw [byteStep, byteStep, byteStep, ← bitSteps_xor, hlow]
      congr 1
      ac_rfl
    change register poly (byteStep poly c x) xs ^^^ register poly (byteStep poly d y) ys = _
    rw [ih (Nat.succ.inj hlen), hbyte]
    rfl

/-- **Distance.** Two messages with their checksums that differ do so in three bits at least, as long as
their bits are fewer than the period. -/
theorem three_le_distance (hp : poly.msb = true) (hw : 8 ≤ w) (c f g : BitVec w)
    {xs ys : List (BitVec 8)} (hlen : xs.length = ys.length)
    (hfit : 8 * xs.length + w ≤ Function.minimalPeriod (bitStep poly) one)
    (hsame : register poly c xs ^^^ f = register poly c ys ^^^ g)
    (hne : weight (List.zipWith (· ^^^ ·) xs ys) + (setBits (f ^^^ g)).length ≠ 0) :
    3 ≤ weight (List.zipWith (· ^^^ ·) xs ys) + (setBits (f ^^^ g)).length := by
  have hcancel : register poly 0#w (List.zipWith (· ^^^ ·) xs ys) ^^^ (f ^^^ g) = 0#w := by
    have hzero : register poly 0#w (List.zipWith (· ^^^ ·) xs ys) =
        register poly c xs ^^^ register poly c ys := by
      rw [register_xor poly hlen, BitVec.xor_self]
    have hmove : register poly c xs ^^^ register poly c ys ^^^ (f ^^^ g) =
        register poly c xs ^^^ f ^^^ (register poly c ys ^^^ g) := by ac_rfl
    rw [hzero, hmove, hsame, BitVec.xor_self]
  generalize hdiff : List.zipWith (· ^^^ ·) xs ys = diff at hcancel hne ⊢
  have hdiffLength : diff.length = xs.length := by
    rw [← hdiff, List.length_zipWith, ← hlen, Nat.min_self]
  generalize f ^^^ g = check at hcancel hne ⊢
  have hpowers : (setBits check).map (fun i => power poly (w - 1 - i)) =
      ((setBits check).map fun i => w - 1 - i).map (power poly) := by
    rw [List.map_map]
    rfl
  rw [register_exponents poly hw, ← eq_powers poly check, hpowers, ← xorAll_append,
    ← List.map_append] at hcancel
  rw [← exponents_length (w := w), ← @List.length_map _ _ (setBits check) fun i => w - 1 - i,
    ← List.length_append] at hne ⊢
  refine three_le_of_cancel poly hp (by omega) ?_ ?_ hcancel fun hnil => hne (by rw [hnil]; rfl)
  · refine List.nodup_append.mpr ⟨exponents_nodup hw diff, ?_, ?_⟩
    · refine List.Nodup.map_on (fun i hi j hj hij => ?_) (setBits_nodup check)
      have := setBits_lt hi
      have := setBits_lt hj
      omega
    · intro k hk l hl hkl
      obtain ⟨i, hi, rfl⟩ := List.mem_map.mp hl
      have := setBits_lt hi
      have := (exponents_bounds hw diff k hk).1
      omega
  · intro k hk
    rcases List.mem_append.mp hk with hk | hk
    · have := (exponents_bounds hw diff k hk).2
      omega
    · obtain ⟨i, hi, rfl⟩ := List.mem_map.mp hk
      omega

end Lib.Crc
