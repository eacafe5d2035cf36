import ComputerNetworks.Dns.Termination

/-!
# Names that can be asked for again

The decoder takes any length byte below 192 for a label, and any byte inside one. The encoder throws
on a label over 63 bytes and splits at each dot.
-/

open Lib Lib.Bytes Lib.Traced

namespace Dns

/-- The data of a record that the decoder reads in the response starts at `off`. -/
def DataAt (response : Bytes) (rr : DNSResourceRecord) (off : Nat) : Prop :=
  ∃ o stop, parseResourceRecord response o = .ok (some rr, stop) ∧
    off = stop - rr.dataLength.toNat

/-- Each NS or CNAME target of the response can be written back. -/
def EncodableTargets (response : Bytes) : Prop :=
  ∀ s, parseDNSResponse response = .ok (some s) → ∀ rr ∈ s.records, rr.type.hasTarget →
    ∃ off, DataAt response rr off ∧ Encodable response off

theorem DataAt.nsName {response : Bytes} {rr : DNSResourceRecord} {off : Nat}
    (h : DataAt response rr off) (ht : rr.type.hasTarget) :
    ∃ e, parseDNSName response off = .ok (rr.nsName, e) := by
  obtain ⟨o, stop, hcall, rfl⟩ := h
  exact (Calls.target hcall ht).1

theorem dataAt_of_records {response : Bytes} {s : Sections}
    (h : parseDNSResponse response = .ok (some s)) {rr : DNSResourceRecord}
    (hrr : rr ∈ s.records) : ∃ off, DataAt response rr off := by
  obtain ⟨o, stop, hcall⟩ := exists_call_of_records h rr hrr
  exact ⟨_, o, stop, hcall, rfl⟩

theorem Encodable.fits {response name : Bytes} {off e : Nat} (h : Encodable response off)
    (hname : parseDNSName response off = .ok (name, e)) : Fits name := by
  obtain ⟨labels, -, hquery⟩ := (query_iff_encodable 0 .A hname).mpr h
  rcases createDNSQuery_spec 0 name .A with ⟨hfits, -⟩ | ⟨-, herror⟩
  · exact hfits
  · rw [herror] at hquery; cases hquery

/-- **Name safety.** For each NS or CNAME target of an accepted response, the query that the code
builds asks for the labels that the packet carries there, exactly if each of them can be written
back. A run from a start domain that fits throws nothing, if this holds of every target of the
responses that it receives: it ends, where calls may nest deeper than it meets follow-up
responses. -/
theorem name_safety_iff (response : Bytes) (q : Request) (nest : Nat) :
    (∀ s, parseDNSResponse response = .ok (some s) → ∀ rr ∈ s.records, rr.type.hasTarget →
      (∃ off, DataAt response rr off) ∧
        ∀ off, DataAt response rr off → ∀ id type,
          ((∃ labels, Carries response off labels ∧
            createDNSQuery id rr.nsName type = .ok (queryFor id labels type)) ↔
              Encodable response off)) ∧
    ((∀ l ∈ Text.getlines dot q.domain, l.length ≤ 63) →
      (∀ type response, .received type response ∈ (q.run nest).2 → EncodableTargets response) →
      (∃ r, (q.run nest).1 = .ok r) ∨
        (q.run nest).1 = .error .tooDeep ∧ nest ≤ followUps (q.run nest).2) := by
  constructor
  · intro s hs rr hrr ht
    refine ⟨dataAt_of_records hs hrr, fun off hdata id type => ?_⟩
    obtain ⟨e, hname⟩ := hdata.nsName ht
    exact query_iff_encodable id type hname
  · intro hstart hreceived
    have hran : Ran nest 40 q.domain [] (stopped (q.run nest).1) (q.run nest).2 :=
      resolve_spec q.net nest q.domain q.type
    match hr : (q.run nest).1 with
    | .ok r => exact Or.inl ⟨r, rfl⟩
    | .error .tooDeep =>
      have hdeep := hran.deep (by rw [hr]; rfl)
      exact Or.inr ⟨rfl, (Nat.le_add_left _ _).trans hdeep⟩
    | .error (.fault f) => exact absurd (by rw [hr]; rfl) (hran.fault f)
    | .error (.thrown what) =>
      obtain ⟨name, hmem, hlong⟩ := hran.thrown what (by rw [hr]; rfl)
      exfalso
      rcases hran.named name hmem with hnil | rfl | hnamed
      · simp at hnil
      · exact hlong hstart
      · obtain ⟨type, response, s, hevent, hs, rr, hrr, ht, rfl⟩ := hnamed
        obtain ⟨off, hdata, hencodable⟩ := hreceived type response hevent s hs rr hrr ht
        obtain ⟨e, hname⟩ := hdata.nsName ht
        exact hlong (hencodable.fits hname)

/-- A response whose one answer is a CNAME to a label of 64 bytes. -/
def longLabel : Bytes :=
  [0, 0, 0x80, 0, 0, 0, 0, 1, 0, 0, 0, 0, 0, 0, 5, 0, 1, 0, 0, 0, 60, 0, 66] ++
    [64] ++ List.replicate 64 0x61 ++ [0]

def longLabelRecord : DNSResourceRecord where
  name := []
  type := .CNAME
  class_ := .IN
  ttl := 60
  dataLength := 66
  data := [64] ++ List.replicate 64 0x61 ++ [0]
  ipv4Address := []
  ipv6Address := []
  nsName := List.replicate 64 0x61
  cname := List.replicate 64 0x61

/-- Every server gives that response. -/
def longLabelRequest : Request where
  net := { time := fun _ => 0, udp := fun _ => some longLabel, tcp := fun _ => none }
  domain := [0x61]
  type := .A

theorem run_longLabelRequest :
    (longLabelRequest.run 2).1 = .error (.thrown "Label too long") := by decide +kernel

/-- The decoder gives the label out, the encoder throws on it, and so does every run that may nest
one call. -/
theorem name_safety_longLabel :
    (parseDNSResponse longLabel = .ok (some ⟨[longLabelRecord], [], []⟩) ∧
      longLabelRecord.type.hasTarget ∧
      ∀ id type, createDNSQuery id longLabelRecord.nsName type = .error "Label too long") ∧
    (∀ l ∈ Text.getlines dot longLabelRequest.domain, l.length ≤ 63) ∧
      ∀ nest, 2 ≤ nest → (longLabelRequest.run nest).1 = .error (.thrown "Label too long") := by
  refine ⟨⟨by decide +kernel, Or.inr rfl, fun id type => ?_⟩, by decide, fun nest hnest => ?_⟩
  · have hlines : Text.getlines dot longLabelRecord.nsName = [longLabelRecord.nsName] := by
      decide +kernel
    rcases createDNSQuery_spec id longLabelRecord.nsName type with ⟨hfits, -⟩ | ⟨-, herror⟩
    · have hlen := hfits longLabelRecord.nsName (by simp [hlines])
      simp [longLabelRecord] at hlen
    · exact herror
  · have hrun := run_longLabelRequest
    have hbelow := resolve_below longLabelRequest.net hnest longLabelRequest.domain .A
    rcases hbelow.eq_or_cut [] with heq | ⟨hcut, -⟩
    · exact (congrArg Prod.fst heq).symm.trans hrun
    · cases hcut.symm.trans hrun

end Dns
