import ComputerNetworks.Dns.Termination

/-!
# What a response delivers

The loop over the answers of a response, in closed form, and what a turn of `iterativeResolve` makes
of it.
-/

open Lib Lib.Bytes Lib.Traced

namespace Dns

/-! ## The loop over the answers -/

/-- The field of a record that the decoder fills in for its type. -/
def DNSResourceRecord.decoded (rr : DNSResourceRecord) : Bytes :=
  if rr.type = .A then rr.ipv4Address
  else if rr.type = .AAAA then rr.ipv6Address
  else if rr.type = .NS then rr.nsName
  else if rr.type = .CNAME then rr.cname
  else []

/-- What the answers have to say to a question of this type. -/
def delivered (type : DNSRecordType) (answers : List DNSResourceRecord) : List Bytes :=
  (answers.filter fun rr => rr.type = type ∧ rr.decoded ≠ []).map (·.decoded)

/-- What the loop takes of it. Nothing stands in its branch for records of the type that was asked
for when that type is CNAME. -/
def taken (type : DNSRecordType) (answers : List DNSResourceRecord) : List Bytes :=
  if type = .CNAME then [] else delivered type answers

theorem taken_cons (type : DNSRecordType) (rr : DNSResourceRecord)
    (answers : List DNSResourceRecord) :
    taken type (rr :: answers) = taken type [rr] ++ taken type answers := by
  unfold taken delivered
  split
  · rfl
  · rw [← List.map_append, ← List.filter_append, List.singleton_append]

theorem scanAnswer_own (f : Found) (rr : DNSResourceRecord) :
    scanAnswer rr.type f rr =
      if rr.type ≠ .CNAME ∧ rr.decoded ≠ [] then
        { f with results := f.results ++ [rr.decoded], finalAnswer := true }
      else f := by
  have hA : DNSRecordType.A ≠ .AAAA ∧ DNSRecordType.A ≠ .NS ∧ DNSRecordType.A ≠ .CNAME := by decide
  have hAAAA : DNSRecordType.AAAA ≠ .A ∧ DNSRecordType.AAAA ≠ .NS ∧
    DNSRecordType.AAAA ≠ .CNAME := by decide
  have hNS : DNSRecordType.NS ≠ .A ∧ DNSRecordType.NS ≠ .AAAA ∧
    DNSRecordType.NS ≠ .CNAME := by decide
  unfold scanAnswer DNSResourceRecord.decoded
  by_cases h4 : rr.type = .A
  · simp [h4, hA]
  by_cases h6 : rr.type = .AAAA
  · simp [h6, hAAAA]
  by_cases hns : rr.type = .NS
  · simp [hns, hNS]
  · simp +contextual [h4, h6, hns]

theorem scanAnswer_taken (type : DNSRecordType) (f : Found) (rr : DNSResourceRecord) :
    (scanAnswer type f rr).results = f.results ++ taken type [rr] ∧
      (scanAnswer type f rr).finalAnswer = (f.finalAnswer || taken type [rr] ≠ []) := by
  by_cases ht : rr.type = type
  · subst ht
    rw [scanAnswer_own]
    by_cases hc : rr.type = .CNAME
    · simp [taken, hc]
    by_cases hdata : rr.decoded = []
    · simp [taken, delivered, hc, hdata]
    · simp [taken, delivered, hc, hdata]
  · have hnone : taken type [rr] = [] := by simp [taken, delivered, ht]
    rw [scanAnswer, if_neg ht, hnone]
    split_ifs <;> simp

theorem foldl_scanAnswer_taken (type : DNSRecordType) (answers : List DNSResourceRecord) :
    ∀ f : Found, (answers.foldl (scanAnswer type) f).results = f.results ++ taken type answers ∧
      (answers.foldl (scanAnswer type) f).finalAnswer =
        (f.finalAnswer || taken type answers ≠ []) := by
  induction answers with
  | nil => simp [taken, delivered]
  | cons rr answers ih =>
    intro f
    obtain ⟨hresults, hfinal⟩ := ih (scanAnswer type f rr)
    obtain ⟨hone, hflag⟩ := scanAnswer_taken type f rr
    rw [List.foldl_cons, hresults, hfinal, hone, hflag, taken_cons type rr answers]
    simp [Bool.or_assoc]

theorem scanAnswers_taken (type : DNSRecordType) (answers : List DNSResourceRecord)
    (results : List Bytes) :
    (scanAnswers type answers results).results = results ++ taken type answers ∧
      ((scanAnswers type answers results).finalAnswer = true ↔ taken type answers ≠ []) := by
  obtain ⟨hresults, hfinal⟩ := foldl_scanAnswer_taken type answers
    { results, finalAnswer := false, cnameTarget := [] }
  exact ⟨hresults, by rw [scanAnswers, hfinal]; simp⟩

/-! ## A turn -/

section Turn

variable {net : Network} {nested : Nested} {domain : Bytes} {type : DNSRecordType}
  {iterations : Nat} {s : ResolveState} {tr : List Event} {sections : Sections}

/-- A turn that gets a response which the decoder accepts. -/
structure Accepts (net : Network) (domain : Bytes) (type : DNSRecordType) (s : ResolveState)
    (tr : List Event) (response : Bytes) (sections : Sections) (tr' : List Event) : Prop where
  tries : s.serverTries < maxServerTries
  failures : s.totalFailures < maxTotalFailures
  asked : ∃ server others, s.servers = server :: others ∧
    ask net server domain type tr = (.ok (some response), tr')
  parsed : parseDNSResponse response = .ok (some sections)

theorem Accepts.iteration_eq {response : Bytes} {tr' : List Event}
    (h : Accepts net domain type s tr response sections tr') (nested : Nested) (iterations : Nat) :
    iteration net nested domain type iterations s tr =
      onResponse nested type iterations { s with serverTries := 0, totalFailures := 0 } sections
        (.received type response :: tr') := by
  obtain ⟨server, others, hservers, hask⟩ := h.asked
  rw [iteration, hservers]
  dsimp only
  rw [if_neg (not_le.mpr h.tries), if_neg (not_le.mpr h.failures), bind_apply, hask]
  dsimp only
  rw [h.parsed, ofExcept_ok, Traced.pure_bind]
  rfl

theorem onResponse_taken (h : taken type sections.answers ≠ []) :
    onResponse nested type iterations s sections tr =
      (.ok (.leave (true, s.results ++ taken type sections.answers)), tr) := by
  obtain ⟨hresults, hfinal⟩ := scanAnswers_taken type sections.answers s.results
  rw [onResponse, if_pos (hfinal.mpr h), hresults]
  rfl

theorem ends_onResponse (h : taken type sections.answers = [])
    {R : Except Stop (Option (List Bytes)) → List Event → Prop}
    {Q : Except Stop (Turn ResolveState (Bool × List Bytes)) → List Event → Prop}
    (hfollow : Ends (followCname nested type iterations
      (scanAnswers type sections.answers s.results)) tr R)
    (hsome : ∀ results tr', R (.ok (some results)) tr' → Q (.ok (.leave (true, results))) tr')
    (hnone : ∀ tr', R (.ok none) tr' → Ends (referral nested iterations s sections) tr' Q)
    (herror : ∀ e tr', R (.error e) tr' → Q (.error e) tr') :
    Ends (onResponse nested type iterations s sections) tr Q := by
  obtain ⟨hresults, hfinal⟩ := scanAnswers_taken type sections.answers s.results
  rw [h, List.append_nil] at hresults
  rw [onResponse, if_neg (by simp [hfinal, h]), hresults]
  refine hfollow.bind (fun a tr' ha => ?_) herror
  cases a with
  | some results => exact ends_pure (hsome results tr' ha)
  | none => exact hnone tr' ha

end Turn

end Dns
