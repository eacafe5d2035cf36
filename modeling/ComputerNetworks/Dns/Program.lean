import ComputerNetworks.Dns.Results

/-!
# The program

`main` of `dns_resolver.cpp`: its arguments, what it prints, and its exit code.
-/

open Lib Lib.Bytes Lib.Traced

namespace Dns

/-! ## Arguments -/

structure Arguments where
  debugMode : Bool
  domain : Bytes
  type : DNSRecordType
  deriving DecidableEq, Repr

def typeOf (text : Bytes) : Option DNSRecordType :=
  if text = ofString "A" then some .A
  else if text = ofString "AAAA" then some .AAAA
  else if text = ofString "NS" then some .NS
  else if text = ofString "CNAME" then some .CNAME
  else none

/-- The arguments behind the name of the program. A `-d` is a domain where only two of them are. -/
def parseArguments (args : List Bytes) : Except String Arguments :=
  if args.length < 2 then .error "Usage"
  else
    let debugMode := decide (3 ≤ args.length) && args.head? = some (ofString "-d")
    match if debugMode then args.tail else args with
    | [] => .error "Error: domain name required"
    | [_] => .error "Error: record type required"
    | domain :: text :: _ =>
      match typeOf text with
      | none => .error "Unsupported record type"
      | some type => .ok { debugMode, domain, type }

/-! ## The run -/

/-- What is printed for some results. -/
def printed (debugMode : Bool) (results : List Bytes) : List Bytes :=
  if debugMode then ofString "Results:" :: results.map (ofString "  " ++ ·) else results

/-- The exit code, and the lines on `std::cout`. -/
def main (net : Network) (nest : Nat) (args : List Bytes) : Run (Nat × List Bytes) :=
  match parseArguments args with
  | .error _ => return (1, [])
  | .ok a => do
    let (ok, results) ← resolve net nest a.domain a.type
    if ok then
      if results = [] then return (1, [])
      else return (0, printed a.debugMode results)
    else return (1, [])

theorem main_of_error {net : Network} {nest : Nat} {args : List Bytes} {what : String}
    (h : parseArguments args = .error what) : main net nest args = pure (1, []) := by
  unfold main
  rw [h]

theorem main_of_ok {net : Network} {nest : Nat} {args : List Bytes} {a : Arguments}
    (h : parseArguments args = .ok a) {ok : Bool} {results : List Bytes} {tr : List Event}
    (hrun : resolve net nest a.domain a.type [] = (.ok (ok, results), tr)) :
    main net nest args [] =
      (if ok ∧ results ≠ [] then .ok (0, printed a.debugMode results) else .ok (1, []), tr) := by
  unfold main
  rw [h]
  dsimp only
  rw [bind_apply, hrun]
  cases ok with
  | false => rfl
  | true =>
    by_cases hne : results = []
    · subst hne
      rfl
    · dsimp only
      rw [if_pos rfl, if_neg hne, if_pos ⟨rfl, hne⟩]
      rfl

theorem main_of_stop {net : Network} {nest : Nat} {args : List Bytes} {a : Arguments}
    (h : parseArguments args = .ok a) {why : Stop} {tr : List Event}
    (hrun : resolve net nest a.domain a.type [] = (.error why, tr)) :
    main net nest args [] = (.error why, tr) := by
  unfold main
  rw [h]
  dsimp only
  rw [bind_apply, hrun]

theorem resolve_contract (net : Network) (nest : Nat) (domain : Bytes) (type : DNSRecordType)
    (tr : List Event) : Ends (resolve net nest domain type) tr (Contract type [] tr) := by
  unfold resolve
  split
  · exact iterativeResolve_contract net nest domain type rootServers [] tr
  · exact ends_pure (.failed _)

theorem resolve_cname {net : Network} {nest : Nat} {domain : Bytes} {tr tr' : List Event}
    {results : List Bytes} (h : resolve net nest domain .CNAME tr = (.ok (true, results), tr')) : False := by
  unfold resolve at h
  split at h
  · cases nest with
    | zero => cases h
    | succ nest =>
      rw [iterativeResolve_succ] at h
      exact cname_never_found net nest domain _ _ _ _ (congrArg Prod.fst h)
  · cases h

/-- **The program.** It ends with 0 exactly if its arguments are right and `resolve` succeeds, and then prints
at least one line, each of them the data of an answer of the type that was asked for, which is not CNAME.
Otherwise it ends with 1 and prints nothing. -/
theorem main_prints (net : Network) (nest : Nat) (args : List Bytes) (code : Nat) (out : List Bytes)
    (tr : List Event) : main net nest args [] = (.ok (code, out), tr) ↔
      (code = 0 ∧ ∃ a results, parseArguments args = .ok a ∧ a.type ≠ .CNAME ∧
        resolve net nest a.domain a.type [] = (.ok (true, results), tr) ∧
        out = printed a.debugMode results ∧ results ≠ [] ∧ ∀ x ∈ results, Answered a.type [] tr x) ∨
      (code = 1 ∧ out = [] ∧ ((tr = [] ∧ ∃ what, parseArguments args = .error what) ∨
        ∃ a results, parseArguments args = .ok a ∧
          resolve net nest a.domain a.type [] = (.ok (false, results), tr))) := by
  cases hargs : parseArguments args with
  | error what =>
    rw [main_of_error hargs]
    constructor
    · intro h
      cases h
      exact .inr ⟨rfl, rfl, .inl ⟨rfl, what, rfl⟩⟩
    · rintro (⟨-, a, _, ha, -⟩ | ⟨rfl, rfl, ⟨rfl, -⟩ | ⟨a, _, ha, -⟩⟩)
      · cases ha
      · rfl
      · cases ha
  | ok a =>
    have hcontract := resolve_contract net nest a.domain a.type []
    unfold Ends at hcontract
    obtain ⟨r, tr₁, hrun⟩ : ∃ r tr₁, resolve net nest a.domain a.type [] = (r, tr₁) := ⟨_, _, rfl⟩
    rw [hrun] at hcontract
    cases hcontract with
    | stopped why =>
      rw [main_of_stop hargs hrun]
      constructor
      · intro h
        cases h
      · rintro (⟨-, _, _, ha, -, hfound, -⟩ | ⟨-, -, ⟨-, _, ha⟩ | ⟨_, _, ha, hfailed⟩⟩) <;> cases ha
        · rw [hrun] at hfound
          cases hfound
        · rw [hrun] at hfailed
          cases hfailed
    | failed =>
      rw [main_of_ok hargs hrun]
      constructor
      · intro h
        cases h
        exact .inr ⟨rfl, rfl, .inr ⟨a, _, rfl, hrun⟩⟩
      · rintro (⟨-, _, _, ha, -, hfound, -⟩ | ⟨rfl, rfl, ⟨-, _, ha⟩ | ⟨_, _, ha, hfailed⟩⟩) <;>
          cases ha
        · rw [hrun] at hfound
          cases hfound
        · rw [hrun] at hfailed
          cases hfailed
          rfl
    | found hne hall =>
      rw [main_of_ok hargs hrun, if_pos ⟨rfl, hne⟩]
      constructor
      · intro h
        cases h
        refine .inl ⟨rfl, a, _, rfl, ?_, hrun, rfl, hne, fun x hx => (hall x hx).answered⟩
        intro htype
        rw [htype] at hrun
        exact resolve_cname hrun
      · rintro (⟨rfl, _, _, ha, -, hfound, rfl, -⟩ | ⟨-, -, ⟨-, _, ha⟩ | ⟨_, _, ha, hfailed⟩⟩) <;>
          cases ha
        · rw [hrun] at hfound
          cases hfound
          rfl
        · rw [hrun] at hfailed
          cases hfailed

end Dns
