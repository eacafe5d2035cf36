import ComputerNetworks.Exchange.Lines
import Mathlib.Data.List.ReduceOption

/-!
# When the server is shut down

What a child makes of any stream of bytes, wherever the client closes the connection.
-/

open Lib Lib.Bytes Lib.Duplex Lib.Fields Lib.Number
open Lib.Crlf (lf)

namespace Exchange

/-! ## What a stream has to have -/

/-- Two lines stand at the front of the stream, and fit into the buffer. -/
structure Complete (stream first second : Bytes) : Prop where
  split : ∃ rest, stream = first ++ lf :: (second ++ lf :: rest)
  plain : lf ∉ first ∧ lf ∉ second
  fits : first.length + second.length + 2 < bufferSize

def InRange (n : Int) : Prop := 1 ≤ n ∧ n ≤ 100

instance (n : Int) : Decidable (InRange n) := inferInstanceAs (Decidable (_ ∧ _))

/-- The stream asks for a shutdown. -/
def ShutsDown (stream : Bytes) : Prop :=
  ∃ first second, Complete stream first second ∧ ¬ InRange (decimal second)

/-! ## What a child reads -/

/-- The results of a child's calls: of `recv`, where `none` is an interruption, up to the end of the stream;
and of `send`. -/
def results (received : List (Option UInt8)) (sends : List SendResult) : List Result :=
  (received.map fun
    | none => .recv .interrupted
    | some c => .recv (.byte c)) ++ .recv .closed :: sends.map .send

/-- What is in the buffer at the end of a stream. -/
def readFrom (out : Bytes) : Bytes → Bytes
  | [] => out
  | c :: stream => if Pending (out ++ [c]) then readFrom (out ++ [c]) stream else out ++ [c]

theorem readFrom_append {out front : Bytes} (h : Pending (out ++ front)) (stream : Bytes) :
    readFrom out (front ++ stream) = readFrom (out ++ front) stream := by
  induction front generalizing out with
  | nil => rw [List.nil_append, List.append_nil]
  | cons c front ih =>
    rw [List.append_cons] at h
    rw [List.cons_append, readFrom, if_pos h.of_append, ih h, ← List.append_cons]

theorem run_recv_sending (buf resp : Bytes) (total : Nat) (received : List (Option UInt8))
    (sends : List SendResult) :
    child.run (.sending buf resp total) (results received sends) =
      child.run (.sending buf resp total) (sends.map .send) := by
  induction received with
  | nil => rfl
  | cons r received ih =>
    rw [← ih]
    cases r with
    | none => rfl
    | some c => rfl

theorem run_results (received : List (Option UInt8)) (sends : List SendResult) :
    ∀ {out : Bytes}, Pending out →
      child.run (.receiving (.of out)) (results received sends) =
        child.run (.sending (readFrom out received.reduceOption) reply.text 0) (sends.map .send) := by
  induction received with
  | nil =>
    intro out _
    have hclosed : child.step (.receiving (.of out)) (.recv .closed) = (.sending out reply.text 0, []) :=
      child_step_closed (.of out)
    rw [results, List.map_nil, List.nil_append, Machine.run, hclosed]
    rfl
  | cons r received ih =>
    intro out hout
    cases r with
    | none => exact ih hout
    | some c =>
      have hbyte := child_step_byte hout c
      rw [List.reduceOption_cons_of_some, readFrom]
      rw [results, List.map_cons, List.cons_append, Machine.run, hbyte]
      by_cases hnext : Pending (out ++ [c])
      · rw [if_pos hnext, if_pos hnext]
        exact ih hnext
      · rw [if_neg hnext, if_neg hnext]
        exact run_recv_sending _ _ _ received sends

/-! ## The reply -/

/-- The results of `send` that bring the reply out. -/
def Replied (sends : List SendResult) : Prop := ∃ r, sendAll reply.text.length sends = .leave r ∧ 0 ≤ r

theorem run_exited (code : Nat) (buf : Option Bytes) (calls : List Result) :
    child.run (.exited code buf) calls = (.exited code buf, []) := by
  induction calls with
  | nil => rfl
  | cons call calls ih =>
    have hstep : child.step (.exited code buf) call = (.exited code buf, []) := rfl
    rw [Machine.run, hstep, ih]
    rfl

theorem run_sends (buf resp : Bytes) (sends : List SendResult) : ∀ total,
    child.run (.sending buf resp total) (sends.map .send) =
      Child.sends buf resp ((Turn.next total).feed (sendAllTurn resp.length) sends) := by
  induction sends with
  | nil => intro total; rfl
  | cons r sends ih =>
    intro total
    have hstep : child.step (.sending buf resp total) (.send r) =
        Child.sends buf resp (sendAllTurn resp.length total r) := rfl
    rw [List.map_cons, Machine.run, hstep, Turn.feed]
    cases sendAllTurn resp.length total r with
    | next total' =>
      rw [← ih total', Child.sends]
      rfl
    | leave r =>
      rw [Turn.feed, Child.sends]
      split
      · rw [run_exited, List.append_nil]
      · rw [run_exited, List.append_nil]

theorem signalled_iff (received : List (Option UInt8)) (sends : List SendResult) :
    Signal.usr1 ∈ (child.run .start (results received sends)).2 ↔
      Replied sends ∧ (parseLines (readFrom [] received.reduceOption)).outOfRange = true := by
  have hstart : Child.start = .receiving (.of []) := rfl
  have hguard : sendAllGuard reply.text.length 0 = .next 0 := if_pos (by decide +kernel)
  rw [hstart, run_results received sends pending_nil, run_sends, Replied, sendAll, hguard]
  cases (Turn.next 0).feed (sendAllTurn reply.text.length) sends with
  | next total => simp [Child.sends]
  | leave r =>
    by_cases hr : r < 0
    · simp [Child.sends, hr]
    · simp [Child.sends, hr, Int.not_lt.mp hr]

/-! ## The lines that were read -/

theorem outOfRange_none {buf : Bytes} (h : lf ∉ buf.takeWhile (· ≠ 0)) :
    (parseLines buf).outOfRange = false := by
  have hcut : cut lf (buf.takeWhile (· ≠ 0)) = none := cut_eq_none_iff.mpr h
  rw [parseLines, hcut]
  rfl

theorem outOfRange_iff {first : Bytes} (h : lf ∉ first) (second : Bytes) :
    (parseLines (first ++ lf :: second)).outOfRange = true ↔
      0 ∉ first ∧ ¬ InRange (atoi second).toInt := by
  by_cases hnul : 0 ∈ first
  · -- The string ends in front of the line feed.
    refine iff_of_false ?_ fun hn => hn.1 hnul
    obtain ⟨front, back, rfl⟩ := List.append_of_mem hnul
    have htext : (front ++ 0 :: back ++ lf :: second).takeWhile (· ≠ 0) = front.takeWhile (· ≠ 0) := by
      rw [List.append_assoc]
      exact takeWhile_append_of_head front (by rintro c ⟨⟩; rfl)
    rw [outOfRange_none]
    · exact Bool.false_ne_true
    · rw [htext]
      exact fun hmem => h (List.mem_append_left _ ((List.takeWhile_prefix _).subset hmem))
  · have hnumber : Lines.number ⟨first, some (second.takeWhile (· ≠ 0))⟩ = atoi second :=
      atoi_congr (decimal_takeWhile second)
    have hone : (1 : Int32).toInt = 1 := rfl
    have hhundred : (100 : Int32).toInt = 100 := rfl
    rw [parseLines_two ⟨h, hnul⟩, and_iff_right hnul, Lines.outOfRange, hnumber, InRange]
    simp only [Option.isSome_some, Bool.true_and, Bool.or_eq_true, decide_eq_true_eq,
      Int32.lt_iff_toInt_lt, hone, hhundred]
    omega

/-! ## How streams end -/

theorem readFrom_complete {stream first second : Bytes} (h : Complete stream first second) :
    readFrom [] stream = first ++ lf :: (second ++ [lf]) := by
  obtain ⟨⟨rest, rfl⟩, hplain, hfits⟩ := h
  have hcount := count_line hplain
  have hpending : Pending ([] ++ (first ++ lf :: second)) := by
    refine ⟨?_, ?_⟩
    · simp
      omega
    · rw [List.nil_append, hcount]
      decide
  have hstop : ¬ Pending ((first ++ lf :: second) ++ [lf]) := by
    rintro ⟨-, htwo⟩
    rw [List.count_append, hcount] at htwo
    exact absurd htwo (by decide)
  have hsplit : first ++ lf :: (second ++ lf :: rest) = (first ++ lf :: second) ++ lf :: rest := by simp
  rw [hsplit, readFrom_append hpending, List.nil_append, readFrom, if_neg hstop]
  simp

/-- The bytes of a stream that fit into the buffer. -/
def fitting (stream : Bytes) : Bytes := stream.take (bufferSize - 1)

theorem readFrom_fitting {stream : Bytes} (h : (fitting stream).count lf < 2) :
    readFrom [] stream = fitting stream := by
  have hsize : bufferSize - 1 = bufferSize - 2 + 1 := rfl
  unfold fitting at h ⊢
  by_cases hshort : stream.length < bufferSize - 1
  · -- The stream ends before the buffer does.
    rw [List.take_of_length_le hshort.le] at h ⊢
    have hpending : Pending ([] ++ stream) := by
      rw [List.nil_append]
      exact ⟨by omega, h⟩
    have hread := readFrom_append hpending []
    rwa [List.append_nil, List.nil_append] at hread
  · -- The last byte that fits is taken without another look.
    have hlast : bufferSize - 2 < stream.length := by omega
    have htake := (List.take_append_getElem hlast).symm
    have hsplit : stream = stream.take (bufferSize - 2) ++ stream[bufferSize - 2] ::
        stream.drop (bufferSize - 1) := by
      rw [hsize, ← List.drop_eq_getElem_cons hlast, List.take_append_drop]
    have hlength : (stream.take (bufferSize - 2)).length = bufferSize - 2 :=
      List.length_take_of_le hlast.le
    rw [hsize, htake] at h ⊢
    have hpending : Pending ([] ++ stream.take (bufferSize - 2)) := by
      rw [List.nil_append]
      rw [List.count_append] at h
      exact ⟨by rw [hlength]; decide, by omega⟩
    have hstop : ¬ Pending (stream.take (bufferSize - 2) ++ [stream[bufferSize - 2]]) := by
      rintro ⟨hfits, -⟩
      rw [List.length_append, hlength, List.length_singleton] at hfits
      exact absurd hfits (by decide)
    have hread := readFrom_append hpending (stream[bufferSize - 2] :: stream.drop (bufferSize - 1))
    rw [← hsplit, List.nil_append, readFrom, if_neg hstop] at hread
    exact hread

/-- The stream ends, or the buffer is full, in the second line. -/
structure CutOff (stream first second : Bytes) : Prop where
  split : fitting stream = first ++ lf :: second
  plain : lf ∉ first ∧ lf ∉ second

theorem Complete.count {stream first second : Bytes} (h : Complete stream first second) :
    2 ≤ (fitting stream).count lf := by
  obtain ⟨⟨rest, rfl⟩, -, hfits⟩ := h
  have hfront : first ++ lf :: (second ++ [lf]) <+: fitting (first ++ lf :: (second ++ lf :: rest)) := by
    refine List.prefix_take_iff.mpr ⟨⟨rest, by simp⟩, ?_⟩
    simp
    omega
  refine le_trans ?_ (hfront.sublist.count_le lf)
  simp
  omega

theorem CutOff.count {stream first second : Bytes} (h : CutOff stream first second) :
    (fitting stream).count lf = 1 := by
  rw [h.split, count_line h.plain]

/-- There are two lines, or there is one, or none. -/
theorem stream_cases (stream : Bytes) :
    (∃ first second, Complete stream first second) ∨ (∃ first second, CutOff stream first second) ∨
      lf ∉ fitting stream := by
  cases hcut : cut lf (fitting stream) with
  | none => exact .inr (.inr (cut_eq_none_iff.mp hcut))
  | some lines =>
    obtain ⟨first, behind⟩ := lines
    obtain ⟨hsplit, hfirst⟩ := cut_eq_some hcut
    cases hcut' : cut lf behind with
    | none => exact .inr (.inl ⟨first, behind, hsplit, hfirst, cut_eq_none_iff.mp hcut'⟩)
    | some lines =>
      obtain ⟨second, rest⟩ := lines
      obtain ⟨rfl, hsecond⟩ := cut_eq_some hcut'
      have hlength : (fitting stream).length ≤ bufferSize - 1 := List.length_take_le _ _
      refine .inl ⟨first, second, ⟨rest ++ stream.drop (bufferSize - 1), ?_⟩, ⟨hfirst, hsecond⟩, ?_⟩
      · calc stream = fitting stream ++ stream.drop (bufferSize - 1) :=
              (List.take_append_drop (bufferSize - 1) stream).symm
          _ = first ++ lf :: (second ++ lf :: (rest ++ stream.drop (bufferSize - 1))) := by
              rw [hsplit]
              simp
      · rw [hsplit] at hlength
        simp at hlength
        have hsize : bufferSize = 512 := rfl
        omega

/-! ## When the rule of the message holds -/

/-- What a stream and the results of `send` must have. -/
structure Meets (stream : Bytes) (sends : List SendResult) : Prop where
  complete : ∀ first second, Complete stream first second → ¬ InRange (decimal second) →
    0 ∉ first ∧ ¬ InRange (atoi second).toInt ∧ Replied sends
  cutOff : ∀ first second, CutOff stream first second →
    0 ∈ first ∨ InRange (atoi second).toInt ∨ ¬ Replied sends

theorem inRange_atoi {s : Bytes} (h : InRange (decimal s)) : InRange (atoi s).toInt := by
  have hint : IsInt (decimal s) := by
    obtain ⟨hlow, hhigh⟩ := h
    exact ⟨by omega, by omega⟩
  rwa [toInt_atoi hint]

theorem atoi_lf (line : Bytes) : atoi (line ++ [lf]) = atoi line := atoi_congr (decimal_lf line)

section Signal

variable (received : List (Option UInt8)) (sends : List SendResult)

/-- The child asks for a shutdown. -/
def Signalled : Prop := Signal.usr1 ∈ (child.run .start (results received sends)).2

variable {received sends}

theorem signalled_complete {first second : Bytes} (h : Complete received.reduceOption first second) :
    Signalled received sends ↔ Replied sends ∧ 0 ∉ first ∧ ¬ InRange (atoi second).toInt := by
  rw [Signalled, signalled_iff, readFrom_complete h, outOfRange_iff h.plain.1, atoi_lf]

theorem signalled_cutOff {first second : Bytes} (h : CutOff received.reduceOption first second) :
    Signalled received sends ↔ Replied sends ∧ 0 ∉ first ∧ ¬ InRange (atoi second).toInt := by
  rw [Signalled, signalled_iff, readFrom_fitting (by rw [h.count]; decide), h.split,
    outOfRange_iff h.plain.1]

theorem not_signalled (h : lf ∉ fitting received.reduceOption) : ¬ Signalled received sends := by
  rw [Signalled, signalled_iff, readFrom_fitting (by rw [List.count_eq_zero.mpr h]; decide)]
  rintro ⟨-, hrange⟩
  rw [outOfRange_none fun hmem => h ((List.takeWhile_prefix _).subset hmem)] at hrange
  cases hrange

end Signal

/-- **Shutdown.** For every stream, cut off anywhere, the child asks for a shutdown exactly when the stream
does, if and only if the condition is met. -/
theorem shutdown_iff (received : List (Option UInt8)) (sends : List SendResult) :
    (Signal.usr1 ∈ (child.run .start (results received sends)).2 ↔ ShutsDown received.reduceOption) ↔
      Meets received.reduceOption sends := by
  change (Signalled received sends ↔ _) ↔ _
  constructor
  · intro h
    refine ⟨fun first second hlines hrange => ?_, fun first second hcut => ?_⟩
    · obtain ⟨hreplied, hnul, hatoi⟩ :=
        (signalled_complete hlines).mp (h.mpr ⟨first, second, hlines, hrange⟩)
      exact ⟨hnul, hatoi, hreplied⟩
    · by_contra hno
      simp only [not_or, not_not] at hno
      obtain ⟨first', second', hlines, -⟩ :=
        h.mp ((signalled_cutOff hcut).mpr ⟨hno.2.2, hno.1, hno.2.1⟩)
      have htwo := hlines.count
      rw [hcut.count] at htwo
      exact absurd htwo (by decide)
  · intro h
    constructor
    · intro hsignal
      rcases stream_cases received.reduceOption with
        ⟨first, second, hlines⟩ | ⟨first, second, hcut⟩ | hnone
      · obtain ⟨-, -, hatoi⟩ := (signalled_complete hlines).mp hsignal
        exact ⟨first, second, hlines, mt inRange_atoi hatoi⟩
      · obtain ⟨hreplied, hnul, hatoi⟩ := (signalled_cutOff hcut).mp hsignal
        rcases h.cutOff first second hcut with hn | hn | hn
        · exact absurd hn hnul
        · exact absurd hn hatoi
        · exact absurd hreplied hn
      · exact absurd hsignal (not_signalled hnone)
    · rintro ⟨first, second, hlines, hrange⟩
      obtain ⟨hnul, hatoi, hreplied⟩ := h.complete first second hlines hrange
      exact (signalled_complete hlines).mpr ⟨hreplied, hnul, hatoi⟩

/-- The client closes the connection behind its first line. -/
theorem first_line_signalled :
    let received := (ofString "name\n").map some
    ¬ (Signal.usr1 ∈ (child.run .start (results received [.sent 31])).2 ↔
      ShutsDown received.reduceOption) := by
  intro received h
  obtain ⟨first, second, hlines, -⟩ := h.mp (by decide +kernel)
  have htwo := hlines.count
  exact absurd htwo (by decide +kernel)

end Exchange
