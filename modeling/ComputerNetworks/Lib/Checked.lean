import ComputerNetworks.Lib.Bytes

/-!
# Checked reads and loops

A read outside the buffer is an error, and so is a loop that runs out of turns.
What returns `.ok` has done neither.
-/

universe u v

namespace Lib

inductive Fault where
  | outOfBounds (index : Nat)
  | outOfTurns
  deriving DecidableEq, Repr

/-! ## Reads -/

namespace Bytes

def byteAt (buf : Bytes) (i : Nat) : Except Fault UInt8 :=
  match buf[i]? with
  | some b => .ok b
  | none => .error (.outOfBounds i)

def bytesAt (buf : Bytes) : Nat → Nat → Except Fault Bytes
  | _, 0 => .ok []
  | i, n + 1 => do
    let b ← buf.byteAt i
    let rest ← buf.bytesAt (i + 1) n
    return b :: rest

def u16At (buf : Bytes) (i : Nat) : Except Fault UInt16 := do
  let bytes ← buf.bytesAt i 2
  return read16 bytes

def u32At (buf : Bytes) (i : Nat) : Except Fault UInt32 := do
  let bytes ← buf.bytesAt i 4
  return read32 bytes

theorem byteAt_of_getElem? {buf : Bytes} {i : Nat} {b : UInt8} (h : buf[i]? = some b) :
    buf.byteAt i = .ok b := by
  simp [byteAt, h]

theorem slice_succ {buf : Bytes} {i : Nat} {b : UInt8} (h : buf[i]? = some b) (n : Nat) :
    slice buf i (n + 1) = b :: slice buf (i + 1) n := by
  obtain ⟨hi, rfl⟩ := List.getElem?_eq_some_iff.mp h
  rw [slice, List.drop_eq_getElem_cons hi, List.take_succ_cons, slice]

theorem bytesAt_eq (buf : Bytes) (n : Nat) :
    ∀ i, i + n ≤ buf.length → buf.bytesAt i n = .ok (slice buf i n) := by
  induction n with
  | zero => intro i _; simp [bytesAt, slice]
  | succ n ih =>
    intro i h
    have hi : buf[i]? = some buf[i] := List.getElem?_eq_getElem (by omega)
    rw [bytesAt, byteAt_of_getElem? hi, ih (i + 1) (by omega), slice_succ hi]
    rfl

theorem u16At_eq {buf : Bytes} {i : Nat} (h : i + 2 ≤ buf.length) :
    buf.u16At i = .ok (read16 (buf.drop i)) := by
  rw [u16At, bytesAt_eq _ _ _ h, slice]
  exact congrArg Except.ok (read16_take (buf.drop i))

theorem u32At_eq {buf : Bytes} {i : Nat} (h : i + 4 ≤ buf.length) :
    buf.u32At i = .ok (read32 (buf.drop i)) := by
  rw [u32At, bytesAt_eq _ _ _ h, slice]
  exact congrArg Except.ok (read32_take (buf.drop i))

end Bytes

/-! ## Loops -/

inductive Turn (σ : Type u) (ρ : Type v) where
  | next (s : σ)
  | leave (r : ρ)

variable {σ : Type u} {ρ : Type v}

def loop (turn : σ → Except Fault (Turn σ ρ)) : Nat → σ → Except Fault ρ
  | 0, _ => .error .outOfTurns
  | n + 1, s =>
    match turn s with
    | .error e => .error e
    | .ok (.next t) => loop turn n t
    | .ok (.leave r) => .ok r

/-- The loop rule: an invariant that each turn keeps while a measure falls, until a turn leaves
with what was to be shown. -/
theorem loop_spec {turn : σ → Except Fault (Turn σ ρ)} {I : σ → Prop} {Q : ρ → Prop}
    (measure : σ → Nat)
    (hturn : ∀ s, I s → (∃ t, turn s = .ok (.next t) ∧ I t ∧ measure t < measure s) ∨
      ∃ r, turn s = .ok (.leave r) ∧ Q r) (n : Nat) :
    ∀ s, I s → measure s < n → ∃ r, loop turn n s = .ok r ∧ Q r := by
  induction n with
  | zero => intro s _ hn; omega
  | succ n ih =>
    intro s hs hn
    rcases hturn s hs with ⟨t, ht, hI, hlt⟩ | ⟨r, hr, hQ⟩
    · obtain ⟨r, hr, hQ⟩ := ih t hI (by omega)
      exact ⟨r, by rw [loop, ht]; exact hr, hQ⟩
    · exact ⟨r, by rw [loop, hr], hQ⟩

/-! ## Loops around a call -/

/-- What a loop comes to, of which each turn waits for an input. -/
def Turn.feed {ι : Type*} (turn : σ → ι → Turn σ ρ) : Turn σ ρ → List ι → Turn σ ρ
  | .leave r, _ => .leave r
  | .next s, [] => .next s
  | .next s, i :: inputs => (turn s i).feed turn inputs

/-- The loop goes on with `I`, or has left with `Q`. -/
def Turn.Meets (I : σ → Prop) (Q : ρ → Prop) : Turn σ ρ → Prop
  | .next s => I s
  | .leave r => Q r

section Feed

variable {ι : Type*} {turn : σ → ι → Turn σ ρ}

/-- The rule of such a loop: an invariant of the state and of the inputs so far. -/
theorem Turn.feed_meets {I : List ι → σ → Prop} {Q : List ι → ρ → Prop}
    (hturn : ∀ before s i, I before s → (turn s i).Meets (I (before ++ [i])) (Q (before ++ [i])))
    (hleft : ∀ before i r, Q before r → Q (before ++ [i]) r) (inputs : List ι) :
    ∀ (before : List ι) {t : Turn σ ρ}, t.Meets (I before) (Q before) →
      (t.feed turn inputs).Meets (I (before ++ inputs)) (Q (before ++ inputs)) := by
  induction inputs with
  | nil =>
    intro before t h
    rw [List.append_nil]
    cases t with
    | next s => exact h
    | leave r => exact h
  | cons i inputs ih =>
    intro before t h
    rw [List.append_cons]
    cases t with
    | next s => exact ih _ (hturn before s i h)
    | leave r =>
      have hagain := ih (before ++ [i]) (t := .leave r) (hleft before i r h)
      cases inputs with
      | nil => exact hagain
      | cons j inputs => exact hagain

theorem Turn.feed_leaves (μ : σ → Nat) : ∀ {inputs : List ι} {s : σ},
    (∀ s, ∀ i ∈ inputs, (turn s i).Meets (fun t => μ t < μ s) fun _ => True) → μ s < inputs.length →
      ∃ r, (Turn.next s).feed turn inputs = .leave r
  | [], s, _, hlt => absurd hlt (Nat.not_lt_zero _)
  | i :: inputs, s, hturn, hlt => by
    have hi := hturn s i List.mem_cons_self
    rw [feed]
    cases hnext : turn s i with
    | leave r =>
      refine ⟨r, ?_⟩
      cases inputs with
      | nil => rfl
      | cons j inputs => rfl
    | next t =>
      rw [hnext] at hi
      have hcloser : μ t < μ s := hi
      rw [List.length_cons] at hlt
      exact feed_leaves μ (fun s j hj => hturn s j (List.mem_cons_of_mem i hj)) (by omega)

end Feed

end Lib
