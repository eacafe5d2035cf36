import Mathlib.Tactic.IntervalCases

/-!
# Byte strings

Network byte order, copies into a buffer, and the stretch where two strings differ.
-/

namespace Lib

/-- A byte string: a datagram, a buffer, or a C++ string. -/
abbrev Bytes := List UInt8

namespace Bytes

/-- The bytes of a string literal. -/
def ofString (s : String) : Bytes := s.toUTF8.data.toList

/-! ## Characters -/

def space : UInt8 := 0x20

def hyphen : UInt8 := 0x2D

def dot : UInt8 := 0x2E

def slash : UInt8 := 0x2F

def colon : UInt8 := 0x3A

/-! ## Network byte order -/

def be16 (v : UInt16) : Bytes := [UInt8.ofNat (v.toNat / 256), UInt8.ofNat v.toNat]

def be32 (v : UInt32) : Bytes :=
  [UInt8.ofNat (v.toNat / 256 ^ 3), UInt8.ofNat (v.toNat / 256 ^ 2),
    UInt8.ofNat (v.toNat / 256), UInt8.ofNat v.toNat]

def ofBe16 (a b : UInt8) : UInt16 := UInt16.ofNat (a.toNat * 256 + b.toNat)

def ofBe32 (a b c d : UInt8) : UInt32 :=
  UInt32.ofNat (((a.toNat * 256 + b.toNat) * 256 + c.toNat) * 256 + d.toNat)

@[simp] theorem be32_length (v : UInt32) : (be32 v).length = 4 := rfl

theorem ofBe16_toNat (a b : UInt8) : (ofBe16 a b).toNat = a.toNat * 256 + b.toNat := by
  have := a.toNat_lt; have := b.toNat_lt
  simp only [ofBe16, UInt16.toNat_ofNat']
  omega

theorem ofBe32_toNat (a b c d : UInt8) :
    (ofBe32 a b c d).toNat = ((a.toNat * 256 + b.toNat) * 256 + c.toNat) * 256 + d.toNat := by
  have := a.toNat_lt; have := b.toNat_lt; have := c.toNat_lt; have := d.toNat_lt
  simp only [ofBe32, UInt32.toNat_ofNat']
  omega

theorem be16_ofBe16 (a b : UInt8) : be16 (ofBe16 a b) = [a, b] := by
  have := a.toNat_lt; have := b.toNat_lt
  simp only [be16, ofBe16_toNat, List.cons.injEq, and_true, ← UInt8.toNat_inj, UInt8.toNat_ofNat']
  omega

theorem be32_ofBe32 (a b c d : UInt8) : be32 (ofBe32 a b c d) = [a, b, c, d] := by
  have := a.toNat_lt; have := b.toNat_lt; have := c.toNat_lt; have := d.toNat_lt
  simp only [be32, ofBe32_toNat, List.cons.injEq, and_true, ← UInt8.toNat_inj, UInt8.toNat_ofNat']
  omega

/-- The 16-bit number at the front of a string, when it has two bytes there. -/
def read16 : Bytes → UInt16
  | a :: b :: _ => ofBe16 a b
  | _ => 0

/-- The 32-bit number at the front of a string, when it has four bytes there. -/
def read32 : Bytes → UInt32
  | a :: b :: c :: d :: _ => ofBe32 a b c d
  | _ => 0

theorem read16_take (buf : Bytes) : read16 (buf.take 2) = read16 buf := by
  match buf with
  | [] => rfl
  | [_] => rfl
  | _ :: _ :: _ => rfl

theorem read32_take (buf : Bytes) : read32 (buf.take 4) = read32 buf := by
  match buf with
  | [] => rfl
  | [_] => rfl
  | [_, _] => rfl
  | [_, _, _] => rfl
  | _ :: _ :: _ :: _ :: _ => rfl

@[simp] theorem read16_be16 (v : UInt16) (rest : Bytes) : read16 (be16 v ++ rest) = v := by
  have := v.toNat_lt
  simp only [be16, List.cons_append, List.nil_append, read16, ofBe16, ← UInt16.toNat_inj,
    UInt16.toNat_ofNat', UInt8.toNat_ofNat']
  omega

@[simp] theorem read32_be32 (v : UInt32) (rest : Bytes) : read32 (be32 v ++ rest) = v := by
  have := v.toNat_lt
  simp only [be32, List.cons_append, List.nil_append, read32, ofBe32, ← UInt32.toNat_inj,
    UInt32.toNat_ofNat', UInt8.toNat_ofNat']
  omega

theorem be32_injective {v w : UInt32} (h : be32 v = be32 w) : v = w := by
  rw [← read32_be32 v [], ← read32_be32 w [], h]

/-! ## Slices -/

def slice (buf : Bytes) (off n : Nat) : Bytes := (buf.drop off).take n

theorem slice_length (buf : Bytes) (off n : Nat) (h : off + n ≤ buf.length) :
    (slice buf off n).length = n := by
  simp only [slice, List.length_take, List.length_drop]
  omega

theorem slice_append_slice (buf : Bytes) (off m n : Nat) :
    slice buf off m ++ slice buf (off + m) n = slice buf off (m + n) := by
  rw [slice, slice, slice, List.take_add, List.drop_drop]

theorem slice_append_drop (buf : Bytes) (off n : Nat) :
    slice buf off n ++ buf.drop (off + n) = buf.drop off := by
  rw [slice, ← List.drop_drop, List.take_append_drop]

theorem slice_one (buf : Bytes) (off : Nat) (h : off < buf.length) :
    slice buf off 1 = [buf.getD off 0] := by
  rw [slice, List.drop_eq_getElem_cons h, List.take_succ_cons, List.take_zero,
    List.getD_eq_getElem?_getD, List.getElem?_eq_getElem h, Option.getD_some]

theorem be16_read16 (buf : Bytes) (off : Nat) (h : off + 2 ≤ buf.length) :
    be16 (read16 (buf.drop off)) = slice buf off 2 := by
  have hl : 2 ≤ (buf.drop off).length := by simp; omega
  unfold slice
  match buf.drop off, hl with
  | a :: b :: rest, _ => simp [read16, be16_ofBe16]

theorem be32_read32 (buf : Bytes) (off : Nat) (h : off + 4 ≤ buf.length) :
    be32 (read32 (buf.drop off)) = slice buf off 4 := by
  have hl : 4 ≤ (buf.drop off).length := by simp; omega
  unfold slice
  match buf.drop off, hl with
  | a :: b :: c :: d :: rest, _ => simp [read32, be32_ofBe32]

/-! ## Copies -/

/-- `memcpy` of `src` into a buffer at an offset. -/
def memcpy (buf : Bytes) (off : Nat) (src : Bytes) : Bytes :=
  buf.take off ++ src ++ buf.drop (off + src.length)

theorem memcpy_length (buf : Bytes) (off : Nat) (src : Bytes) (h : off + src.length ≤ buf.length) :
    (memcpy buf off src).length = buf.length := by
  simp only [memcpy, List.length_append, List.length_take, List.length_drop]
  omega

theorem memcpy_append (pre old src post : Bytes) (h : old.length = src.length) :
    memcpy (pre ++ old ++ post) pre.length src = pre ++ src ++ post := by
  simp [memcpy, ← h, List.append_assoc, List.drop_append]

theorem memcpy_getElem? (buf : Bytes) (off : Nat) (src : Bytes) (i : Nat)
    (h : off + src.length ≤ buf.length) (hi : i < off ∨ off + src.length ≤ i) :
    (memcpy buf off src)[i]? = buf[i]? := by
  unfold memcpy
  rcases hi with hi | hi
  · rw [List.append_assoc, List.getElem?_append_left (by simp; omega), List.getElem?_take,
      if_pos hi]
  · rw [List.getElem?_append_right (by simp; omega), List.getElem?_drop]
    congr 1
    simp only [List.length_append, List.length_take]
    omega

theorem memcpy_getElem?_inside (buf : Bytes) (off : Nat) (src : Bytes) (i : Nat)
    (h : off ≤ buf.length) (hi : i < src.length) : (memcpy buf off src)[off + i]? = src[i]? := by
  have hoff : (buf.take off).length = off := by simp; omega
  rw [memcpy, List.append_assoc, List.getElem?_append_right (by omega), hoff,
    Nat.add_sub_cancel_left, List.getElem?_append_left hi]

/-! ## Where two strings differ -/

theorem split_of_agree {α : Type*} (xs ys : List α) (k n : Nat)
    (h : ∀ i, i < k ∨ k + n ≤ i → xs[i]? = ys[i]?) :
    xs.take k = ys.take k ∧ xs.drop (k + n) = ys.drop (k + n) := by
  constructor
  · apply List.ext_getElem?
    intro i
    rw [List.getElem?_take, List.getElem?_take]
    split
    · exact h i (Or.inl ‹_›)
    · rfl
  · apply List.ext_getElem?
    intro i
    rw [List.getElem?_drop, List.getElem?_drop]
    exact h _ (Or.inr (by omega))

theorem take_append_middle {α : Type*} (xs : List α) (k n : Nat) :
    xs.take k ++ (xs.drop k).take n ++ xs.drop (k + n) = xs := by
  rw [List.append_assoc, ← List.drop_drop, List.take_append_drop, List.take_append_drop]

end Bytes

end Lib
