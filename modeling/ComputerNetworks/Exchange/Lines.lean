import ComputerNetworks.Exchange.Processes

/-!
# Two lines

How far `recv_until_two_newlines` reads, and what is in the lines of a message.
-/

open Lib Lib.Bytes Lib.Ctype Lib.Fields Lib.Number
open Lib.Crlf (lf)

namespace Exchange

/-! ## How far it reads -/

/-- The loop goes on behind these bytes. -/
def Pending (out : Bytes) : Prop := out.length + 1 < bufferSize ∧ out.count lf < 2

instance (out : Bytes) : Decidable (Pending out) := inferInstanceAs (Decidable (_ ∧ _))

/-- The loop behind these bytes. -/
def Received.of (out : Bytes) : Received := ⟨out, out.count lf⟩

theorem pending_nil : Pending [] := by decide

theorem Pending.of_append {front rest : Bytes} (h : Pending (front ++ rest)) : Pending front := by
  obtain ⟨hlength, hcount⟩ := h
  rw [List.length_append] at hlength
  rw [List.count_append] at hcount
  exact ⟨by omega, by omega⟩

theorem recvGuard_of {out : Bytes} (h : out.count lf < 2) :
    recvGuard bufferSize (.of out) = if Pending out then .next (.of out) else .leave (some out) := by
  rw [recvGuard, Received.of]
  exact if_congr (and_iff_left h).symm rfl rfl

theorem recvTurn_byte {out : Bytes} (h : Pending out) (c : UInt8) :
    recvTurn bufferSize (.of out) (.byte c) =
      if Pending (out ++ [c]) then .next (.of (out ++ [c])) else .leave (some (out ++ [c])) := by
  have hcount := h.2
  by_cases hc : c = lf
  · subst hc
    have hsucc : (out ++ [lf]).count lf = out.count lf + 1 := by simp
    by_cases htwo : 2 ≤ out.count lf + 1
    · -- The second line feed.
      have hstop : ¬ Pending (out ++ [lf]) := fun hp => by
        have := hp.2
        omega
      rw [if_neg hstop, recvTurn, Received.of]
      dsimp only
      rw [if_pos rfl, if_pos htwo]
    · rw [← recvGuard_of (by omega), recvTurn, Received.of, Received.of, hsucc]
      dsimp only
      rw [if_pos rfl, if_neg htwo]
  · have hsame : (out ++ [c]).count lf = out.count lf := by simp [hc]
    rw [← recvGuard_of (by omega), recvTurn, Received.of, Received.of, hsame]
    dsimp only
    rw [if_neg hc]

theorem count_line {first second : Bytes} (h : lf ∉ first ∧ lf ∉ second) :
    (first ++ lf :: second).count lf = 1 := by
  rw [List.count_append, List.count_cons_self, List.count_eq_zero.mpr h.1,
    List.count_eq_zero.mpr h.2]

/-! ## Messages -/

/-- What `snprintf` writes. -/
def twoLines (name : Bytes) (number : Int32) : Bytes := name ++ lf :: (intText number.toInt ++ [lf])

/-- A name and a number that are sent, with a name that can be a line and a message that is accepted. -/
structure Message where
  name : Bytes
  number : Int32
  text : Bytes
  plain : lf ∉ name ∧ 0 ∉ name
  accepted : formatLines name number = some text

theorem Message.text_eq (m : Message) :
    m.text = twoLines m.name m.number ∧ m.text.length < bufferSize := by
  have h := m.accepted
  rw [formatLines] at h
  split at h
  · cases h
  · rename_i hfits
    rw [← Option.some.inj h]
    exact ⟨rfl, Nat.not_le.mp hfits⟩

theorem Message.pending_iff (m : Message) {front rest : Bytes} (h : front ++ rest = m.text) :
    Pending front ↔ rest ≠ [] := by
  obtain ⟨htext, hfits⟩ := m.text_eq
  have hone := count_line ⟨m.plain.1, notMem_intText rfl m.number.toInt⟩
  have hlast : m.text = (m.name ++ lf :: intText m.number.toInt) ++ [lf] := by
    rw [htext, twoLines]
    simp
  constructor
  · rintro ⟨-, hcount⟩ rfl
    rw [List.append_nil] at h
    rw [h, hlast, List.count_append, hone] at hcount
    exact absurd hcount (by decide)
  · intro hne
    obtain ⟨rest, c, rfl⟩ := (List.eq_nil_or_concat' rest).resolve_left hne
    rw [hlast, ← List.append_assoc] at h
    obtain ⟨hfront, -⟩ := List.append_inj' h rfl
    have hlength : front.length + (rest.length + 1) = m.text.length := by
      rw [hlast, ← h]
      simp
    refine ⟨by omega, ?_⟩
    rw [← hfront, List.count_append] at hone
    omega

theorem Message.not_pending (m : Message) : ¬ Pending m.text :=
  fun h => (m.pending_iff (List.append_nil m.text)).mp h rfl

/-! ## What is in them -/

theorem parseLines_two {first : Bytes} (hfirst : lf ∉ first ∧ 0 ∉ first) (second : Bytes) :
    parseLines (first ++ lf :: second) = ⟨first, some (second.takeWhile (· ≠ 0))⟩ := by
  have htext : (first ++ lf :: second).takeWhile (· ≠ 0) = first ++ lf :: second.takeWhile (· ≠ 0) := by
    rw [List.takeWhile_append_of_pos fun c hc => by simpa using ne_of_mem_of_not_mem hc hfirst.2,
      List.takeWhile_cons_of_pos (by decide)]
  rw [parseLines, htext, cut_append lf hfirst.1]

theorem decimal_lf (line : Bytes) : decimal (line ++ [lf]) = decimal line :=
  decimal_append line (by rintro c ⟨⟩; rfl) rfl

theorem Message.parsed (m : Message) :
    (parseLines m.text).first = m.name ∧ (parseLines m.text).number = m.number := by
  obtain ⟨htext, -⟩ := m.text_eq
  have hlines := parseLines_two m.plain (intText m.number.toInt ++ [lf])
  rw [htext, twoLines, hlines]
  refine ⟨rfl, ?_⟩
  rw [Lines.number]
  dsimp only
  rw [atoi_congr ((decimal_takeWhile _).trans (decimal_lf _)), atoi_intText]

def reply : Message where
  name := serverName
  number := serverNumber
  text := ofString "Server of Computer Networks\n50\n"
  plain := by decide
  accepted := by decide +kernel

/-! ## The child between its calls -/

theorem child_read (buf : Bytes) :
    Child.recvs (.leave (some buf)) = (.sending buf reply.text 0, []) := by
  have hreply : formatLines serverName serverNumber = some reply.text := reply.accepted
  have hpos : 0 < reply.text.length := by decide +kernel
  rw [Child.recvs, hreply]
  dsimp only
  rw [sendAllGuard, if_pos hpos, Child.sends]

theorem child_step_byte {out : Bytes} (h : Pending out) (c : UInt8) :
    child.step (.receiving (.of out)) (.recv (.byte c)) =
      if Pending (out ++ [c]) then (.receiving (.of (out ++ [c])), [])
      else (.sending (out ++ [c]) reply.text 0, []) := by
  change Child.recvs (recvTurn bufferSize (.of out) (.byte c)) = _
  rw [recvTurn_byte h]
  split
  · rfl
  · rw [child_read]

theorem child_step_closed (s : Received) :
    child.step (.receiving s) (.recv .closed) = (.sending s.out reply.text 0, []) := child_read s.out

end Exchange
