import ComputerNetworks.Smtp.Client

/-!
# Reply framing

`receiveResponse` takes one reply off the stream, whatever follows it.
-/

open Lib Lib.Crlf Lib.Bytes Lib.Ctype

namespace Smtp

/-! ## Well-formed replies -/

structure Code where
  a : UInt8
  b : UInt8
  c : UInt8
  digits : isdigit a ∧ isdigit b ∧ isdigit c

/-- What may follow a code and its separator on a line. -/
structure LineText where
  text : Bytes
  plain : cr ∉ text ∧ lf ∉ text

def Code.bytes (code : Code) : Bytes := [code.a, code.b, code.c]

/-- `ddd-text CRLF`. -/
def continued (line : Code × LineText) : Bytes := line.1.bytes ++ hyphen :: line.2.text ++ crlf

/-- `ddd text CRLF` or `ddd CRLF`. -/
def final (code : Code) : Option LineText → Bytes
  | some line => code.bytes ++ space :: line.text ++ crlf
  | none => code.bytes ++ crlf

structure Reply where
  continuations : List (Code × LineText)
  code : Code
  last : Option LineText

def Reply.bytes (reply : Reply) : Bytes :=
  reply.continuations.flatMap continued ++ final reply.code reply.last

/-! ## Lines -/

theorem isdigit_ne_cr {c : UInt8} (h : isdigit c = true) : c ≠ cr := by
  rintro rfl
  exact absurd h (by decide)

theorem Code.cr_notMem (code : Code) : cr ∉ code.bytes := by
  obtain ⟨ha, hb, hc⟩ := code.digits
  simp [Code.bytes, (isdigit_ne_cr ha).symm, (isdigit_ne_cr hb).symm, (isdigit_ne_cr hc).symm]

theorem closes_continued (line : Code × LineText) : Closes crlf (continued line) := by
  apply closes_crlf (crlf_not_inside _)
  have := line.1.cr_notMem
  have := line.2.plain.1
  simp_all [cr, hyphen]

theorem closes_final (code : Code) (last : Option LineText) : Closes crlf (final code last) := by
  have := code.cr_notMem
  cases last with
  | none => exact closes_crlf (crlf_not_inside this)
  | some line =>
    apply closes_crlf (crlf_not_inside _)
    have := line.plain.1
    simp_all [cr, space]

theorem responseComplete_continued (full : Bytes) (line : Code × LineText) :
    responseComplete full (continued line) = false := by
  obtain ⟨ha, hb, hc⟩ := line.1.digits
  simp [continued, Code.bytes, responseComplete, space, hyphen, ha, hb, hc]

theorem responseComplete_final (full : Bytes) (code : Code) (last : Option LineText) :
    responseComplete full (final code last) = true := by
  obtain ⟨ha, hb, hc⟩ := code.digits
  cases last with
  | none => simp [final, Code.bytes, crlf, cr, responseComplete, space, hyphen, ha, hb, hc]
  | some line => simp [final, Code.bytes, responseComplete, ha, hb, hc]

theorem line_ended_iff (line : Bytes) :
    2 ≤ line.length ∧ line.drop (line.length - 2) = crlf ↔ crlf <:+ line := by
  rw [List.suffix_iff_eq_drop]
  constructor
  · rintro ⟨-, h⟩; exact h.symm
  · intro h
    have := congrArg List.length h
    simp only [List.length_drop, show crlf.length = 2 from rfl] at this
    exact ⟨by omega, h.symm⟩

theorem receiveFrom_line (full : Bytes) {line : Bytes} (h : Closes crlf line)
    (rest : List (Option UInt8)) :
    receiveFrom full [] (line.map some ++ rest) =
      if responseComplete (full ++ line) line then (some (full ++ line), rest)
      else receiveFrom (full ++ line) [] rest := by
  have hfold : ∀ l : Bytes, l.foldr (fun c rest => some c :: rest) rest = l.map some ++ rest := by
    intro l
    induction l with
    | nil => rfl
    | cons c l ih => rw [List.foldr_cons, ih]; rfl
  rw [← hfold]
  apply reader_closes (fun c rest => some c :: rest) (f := receiveFrom full)
    (g := fun line rest => if responseComplete (full ++ line) line then (some (full ++ line), rest)
      else receiveFrom (full ++ line) [] rest) _ (h.ne_nil crlf_ne_nil) h
  intro line c rest
  rw [receiveFrom, if_congr (line_ended_iff _) rfl rfl]

theorem receiveFrom_reply (lines : List (Code × LineText)) (code : Code) (last : Option LineText)
    (rest : List (Option UInt8)) : ∀ full : Bytes,
    receiveFrom full [] ((lines.flatMap continued ++ final code last).map some ++ rest) =
      (some (full ++ (lines.flatMap continued ++ final code last)), rest) := by
  induction lines with
  | nil =>
    intro full
    rw [List.flatMap_nil, List.nil_append, receiveFrom_line full (closes_final code last),
      responseComplete_final, if_pos rfl]
  | cons line lines ih =>
    -- One more line that says that there are others behind it.
    intro full
    rw [List.flatMap_cons, List.append_assoc, List.map_append, List.append_assoc,
      receiveFrom_line full (closes_continued line), responseComplete_continued, if_neg (by simp),
      ih, List.append_assoc]

/-! ## The stream -/

def stream (replies : List Reply) : Bytes := replies.flatMap Reply.bytes

theorem receiveResponse_stream {s : Client} {reply : Reply} {replies : List Reply}
    {rest : List (Option UInt8)}
    (hs : s.unread = (stream (reply :: replies)).map some ++ rest) :
    receiveResponse s = (reply.bytes,
      { s with unread := (stream replies).map some ++ rest,
               trace := s.trace ++ [.received reply.bytes] }) := by
  unfold receiveResponse
  rw [hs, stream, List.flatMap_cons, List.map_append, List.append_assoc, Reply.bytes,
    receiveFrom_reply]
  rfl

/-- The client after `n` calls of `receiveResponse`. -/
def afterCalls (n : Nat) (s : Client) : Client := (fun s => (receiveResponse s).2)^[n] s

theorem afterCalls_unread (n : Nat) : ∀ (replies : List Reply) (rest : List (Option UInt8))
    (s : Client), n ≤ replies.length → s.unread = (stream replies).map some ++ rest →
      (afterCalls n s).unread = (stream (replies.drop n)).map some ++ rest := by
  induction n with
  | zero => intro replies rest s _ hs; exact hs
  | succ n ih =>
    intro replies rest s hn hs
    cases replies with
    | nil => simp at hn
    | cons reply replies =>
      rw [afterCalls, Function.iterate_succ_apply, ← afterCalls, List.drop_succ_cons,
        receiveResponse_stream hs]
      exact ih replies rest _ (by simpa using hn) rfl

/-- **Reply framing.** Of a stream of well-formed replies with anything behind it, call `i` of
`receiveResponse` returns reply `i` and leaves all that follows it. -/
theorem receiveResponse_framing (s : Client) (replies : List Reply) (rest : List (Option UInt8))
    (i : Fin replies.length) :
    let before := afterCalls i { s with unread := (stream replies).map some ++ rest }
    (receiveResponse before).1 = replies[i].bytes ∧
      (receiveResponse before).2.unread = (stream (replies.drop (i + 1))).map some ++ rest := by
  intro before
  have hunread : before.unread = (stream (replies.drop i)).map some ++ rest :=
    afterCalls_unread i replies rest _ i.isLt.le rfl
  rw [List.drop_eq_getElem_cons i.isLt] at hunread
  rw [receiveResponse_stream hunread]
  exact ⟨rfl, rfl⟩

end Smtp
