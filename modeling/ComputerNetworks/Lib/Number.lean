import ComputerNetworks.Lib.Bytes
import ComputerNetworks.Lib.Fields
import Mathlib.Tactic.Common

/-!
# Characters and numbers

The character classes of the "C" locale, `std::stoi`, and the text that a stream makes of an `int`.
-/

namespace Lib

namespace Ctype

def isspace (c : UInt8) : Bool := c = 0x20 || (0x09 ≤ c && c ≤ 0x0D)

def isdigit (c : UInt8) : Bool := 0x30 ≤ c && c ≤ 0x39

def isupper (c : UInt8) : Bool := 0x41 ≤ c && c ≤ 0x5A

def islower (c : UInt8) : Bool := 0x61 ≤ c && c ≤ 0x7A

def isalnum (c : UInt8) : Bool := isdigit c || isupper c || islower c

def tolower (c : UInt8) : UInt8 := if isupper c then c + 0x20 else c

theorem tolower_tolower (c : UInt8) : tolower (tolower c) = tolower c := by
  have h : ∀ n : Fin 256, tolower (tolower (UInt8.ofNat n)) = tolower (UInt8.ofNat n) := by
    decide +kernel
  simpa using h ⟨c.toNat, c.toNat_lt⟩

theorem isspace_of_isdigit {c : UInt8} (h : isdigit c = true) : isspace c = false := by
  unfold isdigit at h
  unfold isspace
  simp only [Bool.and_eq_true, decide_eq_true_eq, UInt8.le_iff_toNat_le] at h
  simp only [Bool.or_eq_false_iff, Bool.and_eq_false_iff, decide_eq_false_iff_not,
    UInt8.le_iff_toNat_le, ← UInt8.toNat_inj]
  have : (0x20 : UInt8).toNat = 32 := rfl
  have : (0x0D : UInt8).toNat = 13 := rfl
  have : (0x30 : UInt8).toNat = 48 := rfl
  omega

end Ctype

namespace Number

open Bytes Ctype

/-- The values of an `int`. -/
def IsInt (n : Int) : Prop := -2 ^ 31 ≤ n ∧ n < 2 ^ 31

instance (n : Int) : Decidable (IsInt n) := inferInstanceAs (Decidable (_ ∧ _))

def plus : UInt8 := 0x2B

def digitsValue (ds : Bytes) : Nat := ds.foldl (fun v c => 10 * v + (c.toNat - 48)) 0

def sign : Bytes → Bool × Bytes
  | [] => (false, [])
  | c :: rest =>
    if c = hyphen then (true, rest)
    else if c = plus then (false, rest)
    else (false, c :: rest)

def inRange (n : Int) : Option Int := if IsInt n then some n else none

/-- `std::stoi`: white space, a sign, digits, and whatever follows. It throws without a digit, and
when the number is no `int`. -/
def stoi (s : Bytes) : Option Int :=
  let signed := sign (s.dropWhile isspace)
  let ds := signed.2.takeWhile isdigit
  if ds = [] then none
  else inRange (if signed.1 then -digitsValue ds else digitsValue ds)

/-- `std::stoul` and `std::stoull`, where a `long` has 64 bits: as `std::stoi`, but a sign turns the
number over. -/
def stoul (s : Bytes) : Option UInt64 :=
  let signed := sign (s.dropWhile isspace)
  let ds := signed.2.takeWhile isdigit
  if ds = [] then none
  else if 2 ^ 64 ≤ digitsValue ds then none
  else some (if signed.1 then -UInt64.ofNat (digitsValue ds) else UInt64.ofNat (digitsValue ds))

/-- `>>` of a signed number of `w` bits, and what is left of the stream behind it. -/
def extract (w : Nat) (s : Bytes) : Option (Int × Bytes) :=
  let signed := sign (s.dropWhile isspace)
  let ds := signed.2.takeWhile isdigit
  let n : Int := if signed.1 then -digitsValue ds else digitsValue ds
  if ds = [] then none
  else if -2 ^ (w - 1) ≤ n ∧ n < 2 ^ (w - 1) then some (n, signed.2.dropWhile isdigit)
  else none

/-- The number that a text starts with, behind white space. It is 0 where no digit is. -/
def decimal (s : Bytes) : Int :=
  let signed := sign (s.dropWhile isspace)
  let n := digitsValue (signed.2.takeWhile isdigit)
  if signed.1 then -n else n

/-- `strtol` with base 10 and a `long` of 64 bits: it stops at the ends of the range. -/
def strtol (s : Bytes) : Int := max (-2 ^ 63) (min (decimal s) (2 ^ 63 - 1))

/-- The C libraries have it as `(int)strtol(s, NULL, 10)`. -/
def atoi (s : Bytes) : Int32 := Int32.ofInt (strtol s)

/-- `<<` of an unsigned number. -/
def natText (n : Nat) : Bytes := (Nat.toDigits 10 n).map fun c => UInt8.ofNat c.toNat

/-- `<<` of an `int`, and `std::to_string`. -/
def intText (n : Int) : Bytes := if n < 0 then hyphen :: natText n.natAbs else natText n.natAbs

theorem inRange_of_isInt {n : Int} (h : IsInt n) : inRange n = some n := if_pos h

theorem isInt_of_inRange {n m : Int} (h : inRange n = some m) : IsInt m := by
  unfold inRange at h
  split at h
  · rename_i hint
    exact Option.some.inj h ▸ hint
  · cases h

theorem inRange_decimal {s : Bytes} {n : Int} (h : stoi s = some n) : inRange (decimal s) = some n := by
  unfold stoi at h
  dsimp only at h
  by_cases hds : (sign (s.dropWhile isspace)).2.takeWhile isdigit = []
  · rw [if_pos hds] at h
    cases h
  · rw [if_neg hds] at h
    exact h

theorem stoi_isInt {s : Bytes} {n : Int} (h : stoi s = some n) : IsInt n :=
  isInt_of_inRange (inRange_decimal h)

/-! ## Texts of numbers -/

theorem natText_ne_nil (n : Nat) : natText n ≠ [] := by
  simp [natText, Nat.toDigits_ne_nil]

theorem digit_toNat {d : Char} (h : d.isDigit = true) :
    (UInt8.ofNat d.toNat).toNat = d.toNat ∧ 48 ≤ d.toNat ∧ d.toNat ≤ 57 := by
  simp only [Char.isDigit, Bool.and_eq_true, decide_eq_true_eq, ge_iff_le, UInt32.le_iff_toNat_le] at h
  obtain ⟨h0, h9⟩ := h
  have h0 : 48 ≤ d.toNat := h0
  have h9 : d.toNat ≤ 57 := h9
  refine ⟨?_, h0, h9⟩
  rw [UInt8.toNat_ofNat']
  omega

theorem isdigit_natText {n : Nat} {c : UInt8} (h : c ∈ natText n) : isdigit c = true := by
  obtain ⟨d, hd, rfl⟩ := List.mem_map.mp h
  obtain ⟨hval, h0, h9⟩ := digit_toNat (Nat.isDigit_of_mem_toDigits (by decide) (by decide) hd)
  unfold isdigit
  simp only [Bool.and_eq_true, decide_eq_true_eq, UInt8.le_iff_toNat_le, hval]
  exact ⟨h0, h9⟩

theorem digitsValue_natText (n : Nat) : digitsValue (natText n) = n := by
  have hfold : ∀ (ds : List Char) (v : Nat), (∀ d ∈ ds, d.isDigit = true) →
      (ds.map fun d => UInt8.ofNat d.toNat).foldl (fun v c => 10 * v + (c.toNat - 48)) v =
        Nat.ofDigitChars 10 ds v := by
    intro ds
    induction ds with
    | nil => intro v _; rfl
    | cons d ds ih =>
      intro v hds
      obtain ⟨hval, -⟩ := digit_toNat (hds d (by simp))
      rw [List.map_cons, List.foldl_cons, ih _ fun x hx => hds x (by simp [hx]),
        Nat.ofDigitChars_cons, hval]
      rfl
  rw [digitsValue, natText, hfold _ _ fun d hd => Nat.isDigit_of_mem_toDigits (by decide) (by decide) hd,
    Nat.ofDigitChars_ten_toDigits]

theorem takeWhile_natText (n : Nat) : (natText n).takeWhile isdigit = natText n := by
  exact List.takeWhile_eq_self_iff.mpr fun c => isdigit_natText

theorem sign_of_isdigit {c : UInt8} (h : isdigit c = true) (rest : Bytes) :
    sign (c :: rest) = (false, c :: rest) := by
  have hminus : c ≠ hyphen := by rintro rfl; exact absurd h (by decide)
  have hplus : c ≠ plus := by rintro rfl; exact absurd h (by decide)
  rw [sign, if_neg hminus, if_neg hplus]

theorem stoi_digits {ds : Bytes} (hne : ds ≠ []) (hds : ∀ c ∈ ds, isdigit c = true)
    (hint : IsInt (digitsValue ds)) : stoi ds = some (digitsValue ds : Int) := by
  obtain ⟨c, rest, rfl⟩ := List.exists_cons_of_ne_nil hne
  have hc := hds c List.mem_cons_self
  rw [stoi, Fields.dropWhile_of_head (by rintro d ⟨⟩; exact isspace_of_isdigit hc),
    sign_of_isdigit hc]
  dsimp only
  rw [List.takeWhile_eq_self_iff.mpr hds, if_neg hne, if_neg (by decide)]
  exact inRange_of_isInt hint

theorem stoul_natText (n : UInt64) : stoul (natText n.toNat) = some n := by
  obtain ⟨c, rest, hcons⟩ := List.exists_cons_of_ne_nil (natText_ne_nil n.toNat)
  have hc : isdigit c = true := isdigit_natText (hcons ▸ List.mem_cons_self)
  have hsign : sign ((natText n.toNat).dropWhile isspace) = (false, natText n.toNat) := by
    rw [hcons, Fields.dropWhile_of_head (by rintro d ⟨⟩; exact isspace_of_isdigit hc), sign_of_isdigit hc]
  rw [stoul, hsign]
  dsimp only
  rw [takeWhile_natText, if_neg (natText_ne_nil _), digitsValue_natText,
    if_neg (Nat.not_le.mpr n.toNat_lt), if_neg Bool.false_ne_true, UInt64.ofNat_toNat]

theorem intText_ne_nil (n : Int) : intText n ≠ [] := by
  unfold intText
  split
  · exact List.cons_ne_nil _ _
  · exact natText_ne_nil _

theorem isspace_intText {n : Int} {c : UInt8} (h : c ∈ intText n) : isspace c = false := by
  unfold intText at h
  split at h
  · rcases List.mem_cons.mp h with rfl | h
    · decide
    · exact isspace_of_isdigit (isdigit_natText h)
  · exact isspace_of_isdigit (isdigit_natText h)

theorem notMem_intText {c : UInt8} (h : isspace c = true) (n : Int) : c ∉ intText n := by
  intro hmem
  rw [isspace_intText hmem] at h
  cases h

theorem stoi_intText {n : Int} (h : IsInt n) : stoi (intText n) = some n := by
  have hds := natText_ne_nil n.natAbs
  unfold intText
  by_cases hneg : n < 0
  · -- A minus, and the digits of the absolute value.
    rw [if_pos hneg, stoi, Fields.dropWhile_of_head (by rintro c ⟨⟩; decide), sign, if_pos rfl]
    dsimp only
    rw [takeWhile_natText, if_neg hds, digitsValue_natText, if_pos rfl,
      show -(n.natAbs : Int) = n by omega]
    exact inRange_of_isInt h
  · have hn : (digitsValue (natText n.natAbs) : Int) = n := by
      rw [digitsValue_natText]
      omega
    rw [if_neg hneg, stoi_digits hds (fun c => isdigit_natText) (hn.symm ▸ h), hn]

theorem extract_cons (w : Nat) {c : UInt8} (h : isspace c = true) (s : Bytes) :
    extract w (c :: s) = extract w s := by
  rw [extract, List.dropWhile_cons, if_pos h]
  rfl

theorem extract_intText {w : Nat} {n : Int} (hlow : -2 ^ (w - 1) ≤ n) (hhigh : n < 2 ^ (w - 1))
    {rest : Bytes} (hrest : ∀ c ∈ rest.head?, isdigit c = false) :
    extract w (intText n ++ rest) = some (n, rest) := by
  have hds := natText_ne_nil n.natAbs
  obtain ⟨htake, hdrop⟩ :=
    Fields.span_append (fun c (hc : c ∈ natText n.natAbs) => isdigit_natText hc) hrest
  have hsolid : ∀ c ∈ (intText n ++ rest).head?, isspace c = false := by
    intro c hc
    obtain ⟨d, t, hcons⟩ := List.exists_cons_of_ne_nil (intText_ne_nil n)
    rw [hcons] at hc
    obtain rfl : d = c := Option.some.inj hc
    exact isspace_intText (hcons ▸ List.mem_cons_self)
  rw [extract, Fields.dropWhile_of_head hsolid]
  unfold intText
  by_cases hneg : n < 0
  · have hn : -(n.natAbs : Int) = n := by omega
    rw [if_pos hneg, List.cons_append, sign, if_pos rfl]
    dsimp only
    rw [htake, hdrop, if_neg hds, digitsValue_natText, if_pos rfl, hn, if_pos ⟨hlow, hhigh⟩]
  · have hn : (n.natAbs : Int) = n := by omega
    obtain ⟨c, digits, hcons⟩ := List.exists_cons_of_ne_nil hds
    have hc : isdigit c = true := isdigit_natText (hcons ▸ List.mem_cons_self)
    rw [hcons] at htake hdrop
    rw [if_neg hneg, hcons, List.cons_append, sign_of_isdigit hc]
    dsimp only
    rw [← List.cons_append, htake, hdrop, if_neg (List.cons_ne_nil _ _), ← hcons,
      digitsValue_natText, if_neg Bool.false_ne_true, hn, if_pos ⟨hlow, hhigh⟩]

/-! ## `atoi` -/

theorem decimal_of_stoi {s : Bytes} {n : Int} (h : stoi s = some n) : decimal s = n := by
  have hrange := inRange_decimal h
  unfold inRange at hrange
  split at hrange
  · exact Option.some.inj hrange
  · cases hrange

theorem decimal_append (s : Bytes) {rest : Bytes} (hrest : ∀ c ∈ rest.head?, isdigit c = false)
    (hzero : decimal rest = 0) : decimal (s ++ rest) = decimal s := by
  have hdigits : ∀ l : Bytes, (l ++ rest).takeWhile isdigit = l.takeWhile isdigit :=
    fun l => Fields.takeWhile_append_of_head l hrest
  cases hs : s.dropWhile isspace with
  | nil =>
    -- White space alone: the number is the one of the rest.
    have hspace : ∀ c ∈ s, isspace c = true := List.dropWhile_eq_nil_iff.mp hs
    rw [decimal, List.dropWhile_append_of_pos hspace, ← decimal, hzero, decimal, hs]
    rfl
  | cons c l =>
    have hdrop : (s ++ rest).dropWhile isspace = c :: (l ++ rest) := by
      rw [List.dropWhile_append, hs]
      rfl
    have hsign : sign (c :: (l ++ rest)) = ((sign (c :: l)).1, (sign (c :: l)).2 ++ rest) := by
      simp only [sign]
      split_ifs
      · rfl
      · rfl
      · rfl
    rw [decimal, hdrop, hsign, decimal, hs]
    dsimp only
    rw [hdigits]

theorem decimal_takeWhile (s : Bytes) : decimal (s.takeWhile (· ≠ 0)) = decimal s := by
  cases hs : s.dropWhile (· ≠ 0) with
  | nil => rw [List.takeWhile_eq_self_iff.mpr (List.dropWhile_eq_nil_iff.mp hs)]
  | cons c rest =>
    have hc : c = 0 := by simpa using Fields.head_dropWhile (p := (· ≠ 0)) s c (by rw [hs]; rfl)
    have hzero : decimal (c :: rest) = 0 := by rw [hc]; rfl
    have hhead : ∀ d ∈ (c :: rest).head?, isdigit d = false := by
      rintro d ⟨⟩
      rw [hc]
      rfl
    conv_rhs => rw [← List.takeWhile_append_dropWhile (p := (· ≠ 0)) (l := s), hs]
    exact (decimal_append _ hhead hzero).symm

theorem atoi_congr {s t : Bytes} (h : decimal s = decimal t) : atoi s = atoi t := by
  rw [atoi, strtol, h, ← strtol, ← atoi]

theorem toInt_atoi {s : Bytes} (h : IsInt (decimal s)) : (atoi s).toInt = decimal s := by
  obtain ⟨hlow, hhigh⟩ := h
  have hlong : strtol s = decimal s := by
    unfold strtol
    omega
  rw [atoi, hlong, Int32.toInt_ofInt_of_le hlow hhigh]

theorem atoi_intText (n : Int32) : atoi (intText n.toInt) = n := by
  have hint : IsInt n.toInt := ⟨n.le_toInt, n.toInt_lt⟩
  have hdecimal : decimal (intText n.toInt) = n.toInt := decimal_of_stoi (stoi_intText hint)
  apply Int32.toInt_inj.mp
  rw [toInt_atoi (hdecimal.symm ▸ hint), hdecimal]

/-! ## Lengths -/

theorem length_natText_le {n k : Nat} (hk : 0 < k) (h : n < 10 ^ k) : (natText n).length ≤ k := by
  rw [natText, List.length_map]
  exact (Nat.length_toDigits_le_iff (by decide) hk).mpr h

theorem length_intText_le {n : Int} {k : Nat} (hk : 0 < k) (h : n.natAbs < 10 ^ k) :
    (intText n).length ≤ k + 1 := by
  have hdigits := length_natText_le hk h
  unfold intText
  split
  · exact Nat.succ_le_succ hdigits
  · exact Nat.le_succ_of_le hdigits

theorem zero_notMem_intText (n : Int) : 0 ∉ intText n := by
  have hdigits : 0 ∉ natText n.natAbs := fun h => absurd (isdigit_natText h) (by decide)
  unfold intText
  split
  · exact fun h => (List.mem_cons.mp h).elim (by decide) hdigits
  · exact hdigits

end Number

end Lib
