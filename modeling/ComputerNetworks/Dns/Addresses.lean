import ComputerNetworks.Lib.Number
import ComputerNetworks.Dns.Decode

/-!
# Addresses and their texts

`inet_pton`, which takes the text of an address apart before a query goes there. It accepts what
`inet_ntop` writes, and nothing else, so the text of an A record leads to the address of the record.
-/

open Lib Lib.Bytes Lib.Ctype

namespace Dns

/-! ## `inet_pton` -/

/-- The octets before the last dot, and what the digits behind it come to. -/
structure PtonState where
  octets : Bytes
  current : Option UInt8

def digitValue (c : UInt8) : Nat := c.toNat - 48

/-- A digit begins an octet or goes on with it: no fifth octet, no zero in front, nothing beyond 255. -/
def ptonDigit (s : PtonState) (d : Nat) : Option PtonState :=
  match s.current with
  | none => if s.octets.length = 4 then none else some { s with current := some (UInt8.ofNat d) }
  | some v =>
    if v = 0 then none
    else if 255 < v.toNat * 10 + d then none
    else some { s with current := some (UInt8.ofNat (v.toNat * 10 + d)) }

/-- A dot ends one of the first three octets. -/
def ptonDot (s : PtonState) : Option PtonState :=
  match s.current with
  | none => none
  | some v => if s.octets.length = 3 then none else some ⟨s.octets ++ [v], none⟩

def ptonTurn (s : PtonState) (c : UInt8) : Option PtonState :=
  if isdigit c then ptonDigit s (digitValue c)
  else if c = dot then ptonDot s
  else none

/-- `inet_pton(AF_INET, ..)`, with `none` for the text that it refuses. -/
def inetPton4 (text : Bytes) : Option Bytes :=
  match text.foldlM ptonTurn ⟨[], none⟩ with
  | some ⟨octets, some v⟩ => if octets.length = 3 then some (octets ++ [v]) else none
  | _ => none

/-! ## Digits -/

theorem octet_toNat {n : Nat} (h : n ≤ 255) : (UInt8.ofNat n).toNat = n :=
  UInt8.toNat_ofNat_of_lt (Nat.lt_succ_of_le h)

theorem digit_text {d : Nat} (h : d < 10) : UInt8.ofNat d.digitChar.toNat = UInt8.ofNat (48 + d) := by
  interval_cases d <;> rfl

theorem isdigit_ofNat {d : Nat} (h : d < 10) :
    isdigit (UInt8.ofNat (48 + d)) = true ∧ digitValue (UInt8.ofNat (48 + d)) = d := by
  interval_cases d <;> decide

theorem ofNat_digitValue {c : UInt8} (h : isdigit c = true) :
    digitValue c < 10 ∧ UInt8.ofNat (48 + digitValue c) = c := by
  unfold isdigit at h
  simp only [Bool.and_eq_true, decide_eq_true_eq, UInt8.le_iff_toNat_le] at h
  obtain ⟨hlow, hhigh⟩ := h
  have hlow : 48 ≤ c.toNat := hlow
  have hhigh : c.toNat ≤ 57 := hhigh
  unfold digitValue
  refine ⟨by omega, ?_⟩
  rw [Nat.add_sub_cancel' hlow, UInt8.ofNat_toNat]

theorem digits_small {n : Nat} (h : n < 10) : digits 10 n = [UInt8.ofNat (48 + n)] := by
  rw [digits, Nat.toDigits_of_lt_base h, List.map_singleton, digit_text h]

theorem digits_step {n d : Nat} (hn : 0 < n) (hd : d < 10) :
    digits 10 (n * 10 + d) = digits 10 n ++ [UInt8.ofNat (48 + d)] := by
  have happend := Nat.toDigits_append_toDigits (b := 10) (by decide) hn hd
  rw [Nat.mul_comm n 10, digits, ← happend, List.map_append, Nat.toDigits_of_lt_base hd,
    List.map_singleton, digit_text hd]
  rfl

/-! ## What is accepted -/

/-- What the loop has read to come to a state. -/
def PtonState.text (s : PtonState) : Bytes :=
  (s.octets.flatMap fun b => digits 10 b.toNat ++ [dot]) ++
    match s.current with
    | none => []
    | some v => digits 10 v.toNat

theorem ptonDigit_text {s t : PtonState} {d : Nat} (hd : d < 10) (h : ptonDigit s d = some t) :
    t.text = s.text ++ [UInt8.ofNat (48 + d)] := by
  obtain ⟨octets, current⟩ := s
  unfold ptonDigit at h
  cases current with
  | none =>
    dsimp only at h
    split at h
    · cases h
    · obtain rfl := Option.some.inj h
      have hval : (UInt8.ofNat d).toNat = d := octet_toNat (by omega)
      simp only [PtonState.text, hval, digits_small hd, List.append_nil]
  | some v =>
    dsimp only at h
    split at h
    · cases h
    split at h
    · cases h
    · rename_i hzero hsmall
      obtain rfl := Option.some.inj h
      have hval : (UInt8.ofNat (v.toNat * 10 + d)).toNat = v.toNat * 10 + d :=
        octet_toNat (by omega)
      have hpos : 0 < v.toNat := by
        rw [Nat.pos_iff_ne_zero]
        exact fun h0 => hzero (UInt8.toNat_inj.mp h0)
      simp only [PtonState.text, hval, digits_step hpos hd, List.append_assoc]

theorem ptonDot_text {s t : PtonState} (h : ptonDot s = some t) : t.text = s.text ++ [dot] := by
  obtain ⟨octets, current⟩ := s
  unfold ptonDot at h
  cases current with
  | none => cases h
  | some v =>
    dsimp only at h
    split at h
    · cases h
    · obtain rfl := Option.some.inj h
      simp [PtonState.text]

theorem ptonTurn_text {s t : PtonState} {c : UInt8} (h : ptonTurn s c = some t) :
    t.text = s.text ++ [c] := by
  unfold ptonTurn at h
  split at h
  · rename_i hdigit
    obtain ⟨hsmall, hc⟩ := ofNat_digitValue hdigit
    rw [ptonDigit_text hsmall h, hc]
  · split at h
    · rename_i hdot
      rw [ptonDot_text h, hdot]
    · cases h

theorem pton_text {text : Bytes} : ∀ {s t : PtonState}, text.foldlM ptonTurn s = some t →
    t.text = s.text ++ text := by
  induction text with
  | nil =>
    intro s t h
    obtain rfl := Option.some.inj h
    exact (List.append_nil _).symm
  | cons c text ih =>
    intro s t h
    rw [List.foldlM_cons] at h
    obtain ⟨u, hturn, hrest⟩ := Option.bind_eq_some_iff.mp h
    rw [ih hrest, ptonTurn_text hturn, List.append_assoc, List.singleton_append]

/-! ## What is written -/

theorem pton_digits {octets : Bytes} (hroom : octets.length < 4) (n : Nat) (hn : n ≤ 255) :
    (digits 10 n).foldlM ptonTurn ⟨octets, none⟩ = some ⟨octets, some (UInt8.ofNat n)⟩ := by
  induction n using Nat.strong_induction_on with
  | _ n ih =>
    by_cases hsmall : n < 10
    · obtain ⟨hdigit, hvalue⟩ := isdigit_ofNat hsmall
      rw [digits_small hsmall, List.foldlM_cons, ptonTurn, if_pos hdigit, hvalue, ptonDigit]
      dsimp only
      rw [if_neg (by omega)]
      rfl
    · have hlast : n % 10 < 10 := Nat.mod_lt _ (by decide)
      obtain ⟨hdigit, hvalue⟩ := isdigit_ofNat hlast
      have hsplit : n / 10 * 10 + n % 10 = n := by omega
      have hval : (UInt8.ofNat (n / 10)).toNat = n / 10 := octet_toNat (by omega)
      have hne : UInt8.ofNat (n / 10) ≠ 0 := by
        intro h0
        rw [h0] at hval
        have : n / 10 = 0 := hval.symm
        omega
      rw [← hsplit, digits_step (by omega) hlast, List.foldlM_append, ih (n / 10) (by omega) (by omega)]
      change ptonTurn _ _ >>= _ = _
      rw [ptonTurn, if_pos hdigit, hvalue, ptonDigit]
      dsimp only
      rw [if_neg hne, hval, hsplit, if_neg (by omega)]
      rfl

theorem pton_dot {octets : Bytes} (v : UInt8) (hroom : octets.length < 3) (rest : Bytes) :
    (dot :: rest).foldlM ptonTurn ⟨octets, some v⟩ = rest.foldlM ptonTurn ⟨octets ++ [v], none⟩ := by
  rw [List.foldlM_cons, ptonTurn, if_neg (by decide), if_pos rfl, ptonDot]
  dsimp only
  rw [if_neg (by omega)]
  rfl

theorem pton_octet {octets : Bytes} (hroom : octets.length < 4) (v : UInt8) (rest : Bytes) :
    (digits 10 v.toNat ++ rest).foldlM ptonTurn ⟨octets, none⟩ =
      rest.foldlM ptonTurn ⟨octets, some v⟩ := by
  rw [List.foldlM_append, pton_digits hroom v.toNat (Nat.le_of_lt_succ v.toNat_lt), UInt8.ofNat_toNat]
  rfl

theorem inetNtop4_four (a b c d : UInt8) : inetNtop4 [a, b, c, d] =
    digits 10 a.toNat ++ dot :: (digits 10 b.toNat ++ dot :: (digits 10 c.toNat ++
      dot :: (digits 10 d.toNat ++ []))) := by
  simp [inetNtop4, Text.join]

theorem inetPton4_inetNtop4 (a b c d : UInt8) :
    inetPton4 (inetNtop4 [a, b, c, d]) = some [a, b, c, d] := by
  have hone : [a].length < 3 := by simp
  have htwo : ([a] ++ [b]).length < 3 := by simp
  have hthree : ([a] ++ [b] ++ [c]).length < 4 := by simp
  rw [inetPton4, inetNtop4_four, pton_octet (by decide), pton_dot a (by decide), List.nil_append,
    pton_octet (Nat.lt_succ_of_lt hone), pton_dot b hone, pton_octet (Nat.lt_succ_of_lt htwo),
    pton_dot c htwo, pton_octet hthree]
  rfl

theorem inetPton4_eq_some_iff (text addr : Bytes) :
    inetPton4 text = some addr ↔ addr.length = 4 ∧ inetNtop4 addr = text := by
  constructor
  · intro h
    unfold inetPton4 at h
    split at h
    · rename_i octets v hread
      split at h
      · rename_i hthree
        obtain rfl := Option.some.inj h
        have htext := pton_text hread
        refine ⟨by rw [List.length_append, hthree]; rfl, ?_⟩
        match octets, hthree with
        | [a, b, c], _ =>
          rw [List.cons_append, List.cons_append, List.cons_append, List.nil_append, inetNtop4_four]
          simpa [PtonState.text] using htext
      · cases h
    · cases h
  · rintro ⟨hlength, rfl⟩
    match addr, hlength with
    | [a, b, c, d], _ => exact inetPton4_inetNtop4 a b c d

/-! ## A records -/

theorem Calls.address {packet : Bytes} {off stop : Nat} {rr : DNSResourceRecord}
    (h : Calls packet off rr stop) (hne : rr.ipv4Address ≠ []) :
    inetPton4 rr.ipv4Address = some rr.data := by
  obtain ⟨_, hcall, hread⟩ := parseResourceRecord_spec packet off
  rw [Calls] at h
  rw [h] at hcall
  cases hcall
  cases hread with
  | @whole name target p e hlt hname hfit htarget =>
    unfold DNSResourceRecord.typed at hne ⊢
    split at hne
    · rename_i hfour
      rw [if_pos hfour]
      refine (inetPton4_eq_some_iff _ _).mpr ⟨?_, rfl⟩
      have hlength : bodyLength packet p = 4 := congrArg UInt16.toNat hfour.2
      exact (slice_length packet (p + 10) _ (by omega)).trans hlength
    · split at hne
      · exact absurd rfl hne
      · split at hne <;> exact absurd rfl hne

end Dns
