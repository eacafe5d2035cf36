/-!
# A datagram channel

What is in flight, in no order that matters. The channel may lose any datagram,
copy any datagram, and hand any datagram over next.
-/

universe u

namespace Lib.Channel

variable {α : Type u}

/-- `Takes c d rest`: the datagram `d` leaves the channel `c`. -/
inductive Takes : List α → α → List α → Prop where
  | mk (before : List α) (d : α) (after : List α) : Takes (before ++ d :: after) d (before ++ after)

/-- What a channel does on its own: it loses or duplicates a datagram. -/
inductive Fault : List α → List α → Prop where
  | lose {c rest : List α} {d : α} : Takes c d rest → Fault c rest
  | duplicate {c : List α} {d : α} : d ∈ c → Fault c (d :: c)

theorem Takes.mem {c rest : List α} {d : α} (h : Takes c d rest) : d ∈ c := by
  cases h; simp

theorem Takes.subset {c rest : List α} {d : α} (h : Takes c d rest) : ∀ x ∈ rest, x ∈ c := by
  cases h
  intro x hx
  simp only [List.mem_append, List.mem_cons] at hx ⊢
  exact hx.imp_right Or.inr

theorem Fault.subset {c c' : List α} (h : Fault c c') : ∀ x ∈ c', x ∈ c := by
  cases h with
  | lose h => exact h.subset
  | duplicate hd =>
    intro x hx
    rcases List.mem_cons.mp hx with rfl | hx
    · exact hd
    · exact hx

theorem takes_of_mem {c : List α} {d : α} (h : d ∈ c) : ∃ rest, Takes c d rest := by
  obtain ⟨before, after, rfl⟩ := List.append_of_mem h
  exact ⟨before ++ after, .mk before d after⟩

theorem Takes.mem_rest {c rest : List α} {d x : α} (h : Takes c d rest) (hx : x ∈ c) (hne : x ≠ d) :
    x ∈ rest := by
  cases h
  simp only [List.mem_append, List.mem_cons] at hx ⊢
  exact hx.imp_right fun hx => hx.resolve_left hne

theorem takes_head (d : α) (c : List α) : Takes (d :: c) d c := Takes.mk [] d c

end Lib.Channel
