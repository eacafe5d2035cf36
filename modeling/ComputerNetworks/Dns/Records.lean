import ComputerNetworks.Dns.Names

/-!
# What `parseResourceRecord` reads

The ways a call can end, and the bounds that hold of each.
-/

open Lib Lib.Bytes

namespace Dns

variable {packet : Bytes} {off : Nat}

/-! ## One record -/

def bodyLength (packet : Bytes) (p : Nat) : Nat := (read16 (packet.drop (p + 8))).toNat

/-- The record whose type stands at `p`, before the fields that depend on the type. -/
def rawRecord (packet : Bytes) (p : Nat) (name : Bytes) : DNSResourceRecord :=
  { name
    type := ⟨read16 (packet.drop p)⟩
    class_ := ⟨read16 (packet.drop (p + 2))⟩
    ttl := read32 (packet.drop (p + 4))
    dataLength := read16 (packet.drop (p + 8))
    data := slice packet (p + 10) (bodyLength packet p)
    ipv4Address := [], ipv6Address := [], nsName := [], cname := [] }

/-- A record with the fields that depend on its type, where `target` is the name in its data. -/
def DNSResourceRecord.typed (rr : DNSResourceRecord) (target : Bytes) : DNSResourceRecord :=
  if rr.type = .A ∧ rr.dataLength = 4 then { rr with ipv4Address := inetNtop4 rr.data }
  else if rr.type = .AAAA ∧ rr.dataLength = 16 then { rr with ipv6Address := inetNtop6 rr.data }
  else if rr.type.hasTarget then
    { rr with nsName := target, cname := if rr.type = .CNAME then target else rr.cname }
  else rr

@[simp] theorem typed_type (rr : DNSResourceRecord) (target : Bytes) :
    (rr.typed target).type = rr.type := by
  unfold DNSResourceRecord.typed; split_ifs <;> rfl
@[simp] theorem typed_dataLength (rr : DNSResourceRecord) (target : Bytes) :
    (rr.typed target).dataLength = rr.dataLength := by
  unfold DNSResourceRecord.typed; split_ifs <;> rfl

theorem parseTyped_eq {p stop : Nat} {target : Bytes} (rr : DNSResourceRecord)
    (h : parseDNSName packet p = .ok (target, stop)) :
    parseTyped packet p rr = .ok (rr.typed target) := by
  unfold parseTyped DNSResourceRecord.typed
  rw [h]
  split_ifs <;> rfl

inductive RecordRead (packet : Bytes) (off : Nat) : Option DNSResourceRecord × Nat → Prop where
  | outside : packet.length ≤ off → RecordRead packet off (none, off)
  | noBody {name : Bytes} {p : Nat} : off < packet.length →
      parseDNSName packet off = .ok (name, p) → packet.length < p + 10 →
      RecordRead packet off (none, p)
  | cutData {name : Bytes} {p : Nat} : off < packet.length →
      parseDNSName packet off = .ok (name, p) → p + 10 ≤ packet.length →
      packet.length < p + 10 + bodyLength packet p → RecordRead packet off (none, p + 10)
  | whole {name target : Bytes} {p e : Nat} : off < packet.length →
      parseDNSName packet off = .ok (name, p) → p + 10 + bodyLength packet p ≤ packet.length →
      parseDNSName packet (p + 10) = .ok (target, e) →
      RecordRead packet off
        (some ((rawRecord packet p name).typed target), p + 10 + bodyLength packet p)

theorem parseDNSName_total (packet : Bytes) (off : Nat) :
    ∃ name stop, parseDNSName packet off = .ok (name, stop) := by
  obtain ⟨path, z, -, -, h⟩ := parseDNSName_spec packet off
  exact ⟨_, _, h⟩

theorem parseResourceRecord_whole {name target : Bytes} {p e : Nat} (hoff : off < packet.length)
    (hname : parseDNSName packet off = .ok (name, p))
    (hfit : p + 10 + bodyLength packet p ≤ packet.length)
    (htarget : parseDNSName packet (p + 10) = .ok (target, e)) :
    parseResourceRecord packet off =
      .ok (some ((rawRecord packet p name).typed target), p + 10 + bodyLength packet p) := by
  have hdata := bytesAt_eq packet (bodyLength packet p) (p + 10) hfit
  have hcut := not_lt.mpr hfit
  rw [parseResourceRecord, if_neg (not_le.mpr hoff), hname]
  unfold bodyLength at hcut hdata
  simp only [bind, Except.bind, if_neg (show ¬ packet.length < p + 10 by omega), if_neg hcut, hdata,
    u16At_eq (show p + 2 ≤ packet.length by omega),
    u16At_eq (show p + 2 + 2 ≤ packet.length by omega),
    u32At_eq (show p + 4 + 4 ≤ packet.length by omega),
    u16At_eq (show p + 8 + 2 ≤ packet.length by omega), parseTyped_eq _ htarget]
  rfl

theorem parseResourceRecord_spec (packet : Bytes) (off : Nat) :
    ∃ r, parseResourceRecord packet off = .ok r ∧ RecordRead packet off r := by
  by_cases hoff : packet.length ≤ off
  · exact ⟨_, by rw [parseResourceRecord, if_pos hoff]; rfl, .outside hoff⟩
  have hlt := not_le.mp hoff
  obtain ⟨name, p, hname⟩ := parseDNSName_total packet off
  by_cases hbody : packet.length < p + 10
  · refine ⟨_, ?_, .noBody hlt hname hbody⟩
    rw [parseResourceRecord, if_neg hoff, hname]
    simp only [bind, Except.bind, if_pos hbody]
    rfl
  by_cases hcut : packet.length < p + 10 + bodyLength packet p
  · refine ⟨_, ?_, .cutData hlt hname (not_lt.mp hbody) hcut⟩
    rw [parseResourceRecord, if_neg hoff, hname]
    simp only [bind, Except.bind, if_neg hbody, u16At_eq (show p + 2 ≤ packet.length by omega),
      u16At_eq (show p + 2 + 2 ≤ packet.length by omega),
      u32At_eq (show p + 4 + 4 ≤ packet.length by omega),
      u16At_eq (show p + 8 + 2 ≤ packet.length by omega)]
    exact if_pos hcut
  · obtain ⟨target, e, htarget⟩ := parseDNSName_total packet (p + 10)
    exact ⟨_, parseResourceRecord_whole hlt hname (not_lt.mp hcut) htarget,
      .whole hlt hname (not_lt.mp hcut) htarget⟩

theorem parseDNSName_bounds (hoff : off ≤ packet.length) {name : Bytes} {p : Nat}
    (h : parseDNSName packet off = .ok (name, p)) : off ≤ p ∧ p ≤ packet.length := by
  obtain ⟨path, z, hwalk, -, hparse⟩ := parseDNSName_spec packet off
  rw [hparse] at h
  cases h
  exact leftBehind_bounds hwalk hoff

theorem RecordRead.bounds {r : Option DNSResourceRecord} {stop : Nat}
    (h : RecordRead packet off (r, stop)) (hoff : off ≤ packet.length) :
    off ≤ stop ∧ stop ≤ packet.length ∧ (r.isSome → off + 10 ≤ stop) := by
  cases h with
  | outside _ => exact ⟨le_refl _, hoff, by simp⟩
  | noBody _ hname _ =>
    obtain ⟨hle, hsize⟩ := parseDNSName_bounds hoff hname
    exact ⟨hle, hsize, by simp⟩
  | cutData _ hname hbody _ =>
    obtain ⟨hle, -⟩ := parseDNSName_bounds hoff hname
    exact ⟨by omega, hbody, by simp⟩
  | whole _ hname hfit _ =>
    obtain ⟨hle, -⟩ := parseDNSName_bounds hoff hname
    exact ⟨by omega, hfit, by omega⟩

/-! ## Sections and responses -/

theorem skipQuestions_total (packet : Bytes) (count : Nat) :
    ∀ off, ∃ r, skipQuestions packet count off = .ok r := by
  induction count with
  | zero => intro off; exact ⟨_, rfl⟩
  | succ count ih =>
    intro off
    rw [skipQuestions]
    split
    · obtain ⟨name, p, hname⟩ := parseDNSName_total packet off
      simp only [bind, Except.bind, hname]
      split
      · exact ⟨_, rfl⟩
      · exact ih (p + 4)
    · exact ⟨_, rfl⟩

theorem parseSection_total (packet : Bytes) (count : Nat) :
    ∀ off, ∃ rrs stop, parseSection packet count off = .ok (rrs, stop) := by
  induction count with
  | zero => intro off; exact ⟨_, _, rfl⟩
  | succ count ih =>
    intro off
    rw [parseSection]
    split
    · obtain ⟨⟨r, p⟩, hr, -⟩ := parseResourceRecord_spec packet off
      simp only [bind, Except.bind, hr]
      cases r with
      | none => exact ⟨_, _, rfl⟩
      | some rr =>
        obtain ⟨rrs, stop, hrest⟩ := ih p
        simp only [hrest]
        exact ⟨_, _, rfl⟩
    · exact ⟨_, _, rfl⟩

theorem parseDNSResponse_eq {response : Bytes} (hsize : headerSize ≤ response.length)
    (hrcode : rcode (read16 (response.drop 2)) = 0) :
    parseDNSResponse response = (do
      match ← skipQuestions response (read16 (response.drop 4)).toNat headerSize with
      | none => return none
      | some o =>
        let (answers, o) ← parseSection response (read16 (response.drop 6)).toNat o
        let (authority, o) ← parseSection response (read16 (response.drop 8)).toNat o
        let (additional, _) ← parseSection response (read16 (response.drop 10)).toNat o
        return some { answers, authority, additional }) := by
  have hheader : 12 ≤ response.length := hsize
  have hflags := u16At_eq (show 2 + 2 ≤ response.length by omega)
  have hqd := u16At_eq (show 4 + 2 ≤ response.length by omega)
  have han := u16At_eq (show 6 + 2 ≤ response.length by omega)
  have hns := u16At_eq (show 8 + 2 ≤ response.length by omega)
  have har := u16At_eq (show 10 + 2 ≤ response.length by omega)
  rw [parseDNSResponse, if_neg (by omega), hflags]
  simp only [bind, Except.bind, hrcode, hqd, han, hns, har]
  rfl

theorem parseDNSResponse_refused {response : Bytes}
    (h : response.length < headerSize ∨ rcode (read16 (response.drop 2)) ≠ 0) :
    parseDNSResponse response = .ok none := by
  by_cases hsize : response.length < headerSize
  · rw [parseDNSResponse, if_pos hsize]
    rfl
  · have hrcode := h.resolve_left hsize
    have hheader : 12 ≤ response.length := not_lt.mp hsize
    have hflags := u16At_eq (show 2 + 2 ≤ response.length by omega)
    rw [parseDNSResponse, if_neg hsize, hflags]
    simp only [bind, Except.bind, if_pos hrcode]
    split <;> rfl

/-- The ways a call of `parseDNSResponse` can end. -/
inductive ResponseRead (response : Bytes) : Option Sections → Prop where
  | header : response.length < headerSize ∨ rcode (read16 (response.drop 2)) ≠ 0 →
      ResponseRead response none
  | question : headerSize ≤ response.length → rcode (read16 (response.drop 2)) = 0 →
      skipQuestions response (read16 (response.drop 4)).toNat headerSize = .ok none →
      ResponseRead response none
  | sections {answers authority additional : List DNSResourceRecord} {o₁ o₂ o₃ o₄ : Nat} :
      headerSize ≤ response.length → rcode (read16 (response.drop 2)) = 0 →
      skipQuestions response (read16 (response.drop 4)).toNat headerSize = .ok (some o₁) →
      parseSection response (read16 (response.drop 6)).toNat o₁ = .ok (answers, o₂) →
      parseSection response (read16 (response.drop 8)).toNat o₂ = .ok (authority, o₃) →
      parseSection response (read16 (response.drop 10)).toNat o₃ = .ok (additional, o₄) →
      ResponseRead response (some ⟨answers, authority, additional⟩)

theorem parseDNSResponse_spec (response : Bytes) :
    ∃ r, parseDNSResponse response = .ok r ∧ ResponseRead response r := by
  by_cases h : response.length < headerSize ∨ rcode (read16 (response.drop 2)) ≠ 0
  · exact ⟨none, parseDNSResponse_refused h, .header h⟩
  have hheader := h
  simp only [not_or, not_lt, not_not] at hheader
  obtain ⟨hsize, hrcode⟩ := hheader
  rw [parseDNSResponse_eq hsize hrcode]
  obtain ⟨r, hr⟩ := skipQuestions_total response (read16 (response.drop 4)).toNat headerSize
  simp only [bind, Except.bind, hr]
  cases r with
  | none => exact ⟨none, rfl, .question hsize hrcode hr⟩
  | some o =>
    obtain ⟨answers, o₂, h₁⟩ := parseSection_total response (read16 (response.drop 6)).toNat o
    obtain ⟨authority, o₃, h₂⟩ := parseSection_total response (read16 (response.drop 8)).toNat o₂
    obtain ⟨additional, o₄, h₃⟩ := parseSection_total response (read16 (response.drop 10)).toNat o₃
    simp only [h₁, h₂, h₃]
    exact ⟨_, rfl, .sections hsize hrcode hr h₁ h₂ h₃⟩

theorem parseDNSResponse_total (response : Bytes) : ∃ r, parseDNSResponse response = .ok r := by
  obtain ⟨r, hr, -⟩ := parseDNSResponse_spec response
  exact ⟨r, hr⟩

/-- **Bounds.** Decoding reads no byte outside the packet and always ends: each of the three
functions returns `.ok`. The name loop follows at most ten pointers, no call leaves an offset before
the one it was given or behind the packet, and a record takes at least ten bytes. -/
theorem decoding_bounds (packet : Bytes) :
    (∀ off, ∃ s, loop (nameTurn packet) (nameTurns packet) (.start off) = .ok s ∧
      s.jumpCount ≤ 10) ∧
    (∀ off ≤ packet.length, ∃ name stop, parseDNSName packet off = .ok (name, stop) ∧
      off ≤ stop ∧ stop ≤ packet.length) ∧
    (∀ off ≤ packet.length, ∃ r stop, parseResourceRecord packet off = .ok (r, stop) ∧
      off ≤ stop ∧ stop ≤ packet.length ∧ (r.isSome → off + 10 ≤ stop)) ∧
    ∃ r, parseDNSResponse packet = .ok r := by
  refine ⟨fun off => ?_, fun off hoff => ?_, fun off hoff => ?_, parseDNSResponse_total packet⟩
  · obtain ⟨s, hs, hjumps, -⟩ := nameLoop_spec packet off
    exact ⟨s, hs, hjumps⟩
  · obtain ⟨name, stop, h⟩ := parseDNSName_total packet off
    exact ⟨name, stop, h, parseDNSName_bounds hoff h⟩
  · obtain ⟨⟨r, stop⟩, h, hread⟩ := parseResourceRecord_spec packet off
    exact ⟨r, stop, h, hread.bounds hoff⟩

end Dns
