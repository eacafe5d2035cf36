import ComputerNetworks.Dns.Resolver
import ComputerNetworks.Dns.RoundTrip

/-!
# What the validator lets through

`isValidDomainName` checks the characters and the whole length. The labels, which the encoder and
the wire format put bounds on, it does not look at.
-/

open Lib Lib.Bytes Lib.Traced

namespace Dns

/-- A letter, a digit or a hyphen. -/
def isLabelChar (c : UInt8) : Bool :=
  (0x61 ≤ c && c ≤ 0x7A) || (0x41 ≤ c && c ≤ 0x5A) || (0x30 ≤ c && c ≤ 0x39) || c == hyphen

/-- A domain name: labels with single dots between them, and maybe one behind the last. -/
inductive WellFormed (domain : Bytes) : Prop where
  | mk {labels : List Bytes} : labels ≠ [] →
      (domain = Text.join dot labels ∨ domain = Text.join dot labels ++ [dot]) →
      (∀ l ∈ labels, 1 ≤ l.length ∧ l.length ≤ 63 ∧ ∀ c ∈ l, isLabelChar c = true) →
      (wireLabels labels).length + 1 ≤ 255 → WellFormed domain

/-- The validator accepts the domain exactly if it is well formed, and every query that `resolve`
builds for it can be built and has no empty label. -/
def Validated (domain : Bytes) : Prop :=
  (isValidDomainName domain = true ↔ WellFormed domain) ∧
    ∀ (net : Network) (nest : Nat) (type : DNSRecordType),
      .asked domain ∈ (resolve net nest domain type []).2 →
      ∀ (id : UInt16) (type' : DNSRecordType), ∃ labels,
        createDNSQuery id domain type' = .ok (queryFor id labels type') ∧ ∀ l ∈ labels, l ≠ []

/-! ## The two sides by the lines -/

/-- Each label has a length that the wire format has a byte for. -/
def Sized (domain : Bytes) : Prop :=
  ∀ l ∈ Text.getlines dot domain, 1 ≤ l.length ∧ l.length ≤ 63

theorem isValidChar_iff (c : UInt8) : isValidChar c = true ↔ isLabelChar c = true ∨ c = dot := by
  simp [isValidChar, isLabelChar]

theorem isValidDomainName_iff (domain : Bytes) :
    isValidDomainName domain = true ↔
      domain ≠ [] ∧ domain.length ≤ 253 ∧ domain.all isValidChar = true := by
  unfold isValidDomainName
  split
  · rename_i h
    simp only [Bool.false_eq_true, false_iff]
    rintro ⟨hne, hle, -⟩
    exact h.elim hne (not_lt.mpr hle)
  · rename_i h
    obtain ⟨hne, hlt⟩ := not_or.mp h
    simp [hne, not_lt.mp hlt]

theorem wireLabels_length (labels : List Bytes) :
    (wireLabels labels).length = (labels.flatMap (· ++ [dot])).length := by
  simp [wireLabels, List.length_flatMap]

theorem length_of_labels {labels : List Bytes} (hne : labels ≠ [])
    (hlabels : ∀ l ∈ labels, l ≠ [] ∧ dot ∉ l) {domain : Bytes}
    (hdomain : domain = Text.join dot labels ∨ domain = Text.join dot labels ++ [dot]) :
    (wireLabels labels).length =
      domain.length + if domain.getLast? = some dot then 0 else 1 := by
  rw [wireLabels_length, ← Text.join_append_delim dot hne]
  rcases hdomain with rfl | rfl
  · rw [if_neg (Text.getLast?_join dot hne hlabels), List.length_append, List.length_singleton]
  · rw [if_pos (by simp), Nat.add_zero]

theorem Sized.labels {domain : Bytes} (h : Sized domain) : Labels (Text.getlines dot domain) :=
  fun l hl => ⟨(h l hl).1, (h l hl).2, Text.getlines_notMem dot domain l hl⟩

theorem getlines_ne_nil {domain : Bytes} (h : domain ≠ []) : Text.getlines dot domain ≠ [] := by
  intro hnil
  rcases Text.getlines_spec dot domain with htext | htext <;> rw [hnil] at htext <;> exact h htext

theorem domain_of_lines {domain : Bytes} (h : domain ≠ []) :
    domain = Text.join dot (Text.getlines dot domain) ∨
      domain = Text.join dot (Text.getlines dot domain) ++ [dot] := by
  rw [Text.join_append_delim dot (getlines_ne_nil h)]
  exact Text.getlines_spec dot domain

theorem mem_domain {labels : List Bytes} {domain : Bytes}
    (hdomain : domain = Text.join dot labels ∨ domain = Text.join dot labels ++ [dot])
    {c : UInt8} (hc : c ≠ dot) : c ∈ domain ↔ ∃ l ∈ labels, c ∈ l := by
  rw [← Text.mem_join hc]
  rcases hdomain with rfl | rfl
  · rfl
  · simp [hc]

theorem wellFormed_iff (domain : Bytes) :
    WellFormed domain ↔ domain ≠ [] ∧ domain.all isValidChar = true ∧ Sized domain ∧
      domain.length ≤ if domain.getLast? = some dot then 254 else 253 := by
  constructor
  · rintro ⟨hne, hdomain, hall, hwire⟩
    rename_i labels
    have hchars : ∀ l ∈ labels, dot ∉ l := fun l hl hdot =>
      absurd ((hall l hl).2.2 dot hdot) (by decide)
    have hlabels : Labels labels := fun l hl => ⟨(hall l hl).1, (hall l hl).2.1, hchars l hl⟩
    have hlength := length_of_labels hne (fun l hl => ⟨hlabels.ne_nil l hl, hchars l hl⟩) hdomain
    refine ⟨?_, List.all_eq_true.mpr fun c hc => ?_, fun l hl => ?_, ?_⟩
    · rintro rfl
      rcases hdomain with h | h
      · exact hne ((Text.join_eq_nil dot hlabels.ne_nil).mp h.symm)
      · simp at h
    · rw [isValidChar_iff]
      by_cases hdot : c = dot
      · exact Or.inr hdot
      · obtain ⟨l, hl, hcl⟩ := (mem_domain hdomain hdot).mp hc
        exact Or.inl ((hall l hl).2.2 c hcl)
    · rw [getlines_labels hlabels hne hdomain] at hl
      exact ⟨(hall l hl).1, (hall l hl).2.1⟩
    · split_ifs at hlength ⊢ <;> omega
  · rintro ⟨hne, hall, hsized, hlen⟩
    have hlabels := hsized.labels
    have hdomain := domain_of_lines hne
    have hlength := length_of_labels (getlines_ne_nil hne)
      (fun l hl => ⟨hlabels.ne_nil l hl, (hlabels l hl).2.2⟩) hdomain
    refine .mk (getlines_ne_nil hne) hdomain (fun l hl => ⟨(hsized l hl).1, (hsized l hl).2, ?_⟩) ?_
    · intro c hc
      have hdot : c ≠ dot := by
        rintro rfl
        exact (hlabels l hl).2.2 hc
      have hvalid := List.all_eq_true.mp hall c ((mem_domain hdomain hdot).mpr ⟨l, hl, hc⟩)
      exact ((isValidChar_iff c).mp hvalid).resolve_right hdot
    · split_ifs at hlength hlen <;> omega

/-! ## The theorem -/

theorem valid_of_asked {net : Network} {nest : Nat} {domain : Bytes} {type : DNSRecordType}
    {name : Bytes} (h : .asked name ∈ (resolve net nest domain type []).2) :
    isValidDomainName domain = true := by
  by_contra hinvalid
  rw [resolve, if_neg hinvalid] at h
  exact absurd h List.not_mem_nil

/-- What the validator classifies as it should. Of the domains that have no bad character, the short
ones must have sized labels, and the long ones must not be a name of 254 characters that fits with
its last dot. -/
def Classified (domain : Bytes) : Prop :=
  domain = [] ∨ domain.all isValidChar = false ∨
    if domain.length ≤ 253 then Sized domain
    else ¬(domain.length = 254 ∧ domain.getLast? = some dot ∧ Sized domain)

theorem accepted_iff (domain : Bytes) :
    (isValidDomainName domain = true ↔ WellFormed domain) ↔ Classified domain := by
  rw [isValidDomainName_iff, wellFormed_iff, Classified]
  by_cases hne : domain = []
  · simp [hne]
  by_cases hall : domain.all isValidChar = true
  swap
  · simp [hall]
  simp only [ne_eq, hne, not_false_eq_true, hall, and_true, true_and, Bool.true_eq_false, false_or]
  by_cases hshort : domain.length ≤ 253
  · have hle : domain.length ≤ if domain.getLast? = some dot then 254 else 253 := by
      split <;> omega
    simp only [hshort, hle, and_true, true_iff, if_true]
  · have hlong : (domain.length ≤ if domain.getLast? = some dot then 254 else 253) ↔
        domain.length = 254 ∧ domain.getLast? = some dot := by
      split_ifs with hdot
      · simp only [hdot, and_true]
        omega
      · simp only [hdot, and_false]
        exact iff_of_false hshort id
    simp only [hshort, hlong, false_iff, if_false]
    tauto

/-- **The validator.** It does as it should on exactly the domains that it classifies right. -/
theorem validated_iff_classified (domain : Bytes) : Validated domain ↔ Classified domain := by
  refine ⟨fun h => (accepted_iff domain).mp h.1, fun h => ⟨(accepted_iff domain).mpr h, ?_⟩⟩
  intro net nest type hasked id type'
  obtain ⟨hne, hall, hsized, -⟩ :=
    (wellFormed_iff domain).mp (((accepted_iff domain).mpr h).mp (valid_of_asked hasked))
  exact ⟨_, createDNSQuery_labels hsized.labels (getlines_ne_nil hne) (domain_of_lines hne) id type',
    hsized.labels.ne_nil⟩

/-- `a..b` passes. -/
theorem empty_label_accepted : ¬ ∀ domain, Validated domain := by
  intro h
  have hvalid : isValidDomainName [0x61, dot, dot, 0x62] = true := by decide
  obtain ⟨-, -, hsized, -⟩ := (wellFormed_iff _).mp ((h _).1.mp hvalid)
  exact absurd (hsized [] (by decide)).1 (by decide)

end Dns
