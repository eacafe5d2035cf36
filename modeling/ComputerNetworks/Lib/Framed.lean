import ComputerNetworks.Lib.Crlf
import ComputerNetworks.Lib.Number

/-!
# Messages with a content length

Header lines, an empty line and a body. A reader that goes by the content length tells a whole message from
one that was cut off, and knows where the next one starts.
-/

open Lib.Bytes Lib.Crlf Lib.Ctype Lib.Fields Lib.Number

namespace Lib.Framed

structure Message where
  lines : List Bytes
  body : Bytes
  deriving DecidableEq

def Message.text (m : Message) : Bytes := headerText m.lines ++ crlf ++ m.body

/-! ## The reader -/

/-- The value of a line with this name, which is compared in lower case. -/
def fieldOf (name line : Bytes) : Option Bytes :=
  match cut colon line with
  | some (front, value) => if front.map tolower = name then some (trim isspace value) else none
  | none => none

/-- It has to be a number and nothing else. -/
def contentLength (lines : List Bytes) : Option Nat :=
  match lines.findSome? (fieldOf (ofString "content-length")) with
  | some value => if value ≠ [] ∧ value.all isdigit = true then some (digitsValue value) else none
  | none => none

/-- The message at the front of a text, and what is behind it. -/
def readMessage (text : Bytes) : Option (Message × Bytes) :=
  match readUntil (crlf ++ crlf) text with
  | none => none
  | some (head, behind) =>
    let lines := (crlfLines head).dropLast
    match contentLength lines with
    | none => none
    | some length =>
      if length ≤ behind.length then some (⟨lines, behind.take length⟩, behind.drop length) else none

/-! ## Fields -/

theorem fieldOf_append {name front : Bytes} (h : colon ∉ front) (value : Bytes) :
    fieldOf name (front ++ colon :: value) =
      if front.map tolower = name then some (trim isspace value) else none := by
  rw [fieldOf, cut_append colon h]

theorem fieldOf_of_head {name line : Bytes} {c d : UInt8} (hname : name.head? = some d)
    (hline : line.head? = some c) (hne : tolower c ≠ d) (hc : c ≠ colon) : fieldOf name line = none := by
  rw [fieldOf]
  cases hcut : cut colon line with
  | none => rfl
  | some parts =>
    obtain ⟨front, value⟩ := parts
    dsimp only
    refine if_neg fun heq => ?_
    obtain ⟨rfl, -⟩ := cut_eq_some hcut
    cases front with
    | nil =>
      rw [List.nil_append, List.head?_cons] at hline
      exact hc (Option.some.inj hline).symm
    | cons b front =>
      rw [List.cons_append, List.head?_cons] at hline
      rw [← heq, List.map_cons, List.head?_cons, Option.some.inj hline] at hname
      exact hne (Option.some.inj hname)

theorem trim_natText (n : Nat) : trim isspace (space :: natText n) = natText n := by
  have hdigit : ∀ c ∈ natText n, isspace c = false := fun c hc => isspace_of_isdigit (isdigit_natText hc)
  rw [trim_cons (by decide)]
  exact trim_of_trimmed ⟨fun c hc => hdigit c (List.mem_of_mem_head? hc),
    fun c hc => hdigit c (List.mem_of_mem_getLast? hc)⟩

theorem contentLength_append {front : List Bytes}
    (hfront : ∀ l ∈ front, fieldOf (ofString "content-length") l = none) (n : Nat) (back : List Bytes) :
    contentLength (front ++ (ofString "Content-Length: " ++ natText n) :: back) = some n := by
  have hline : ofString "Content-Length: " ++ natText n =
      ofString "Content-Length" ++ colon :: (space :: natText n) := by
    have hname : ofString "Content-Length: " = ofString "Content-Length" ++ [colon, space] := rfl
    rw [hname, List.append_assoc]
    rfl
  have hfield : fieldOf (ofString "content-length") (ofString "Content-Length: " ++ natText n) =
      some (natText n) := by
    rw [hline, fieldOf_append (by decide), if_pos (by decide), trim_natText]
  have hfind : (front ++ (ofString "Content-Length: " ++ natText n) :: back).findSome?
      (fieldOf (ofString "content-length")) = some (natText n) := by
    rw [List.findSome?_append, List.findSome?_eq_none_iff.mpr hfront, List.findSome?_cons, hfield]
    rfl
  have hdigits : (natText n).all isdigit = true := List.all_eq_true.mpr fun _ => isdigit_natText
  rw [contentLength, hfind]
  dsimp only
  rw [if_pos ⟨natText_ne_nil n, hdigits⟩, digitsValue_natText]

/-! ## The round trip -/

/-- A message whose header says how long its body is. -/
structure Message.Sized (m : Message) : Prop where
  header : HeaderLines m.lines
  nonempty : m.lines ≠ []
  length : contentLength m.lines = some m.body.length

variable {m : Message}

/-- A header line that says no length. -/
structure Unsized (line : Bytes) : Prop where
  plain : lf ∉ line
  nonempty : line ≠ []
  noLength : fieldOf (ofString "content-length") line = none

theorem unsized_status (statusCode : Int) {reason : Bytes} (h : lf ∉ reason) :
    Unsized (ofString "HTTP/1.1 " ++ intText statusCode ++ space :: reason) where
  plain := by
    have hversion : lf ∉ ofString "HTTP/1.1 " ∧ lf ≠ space := by decide
    have hcode : lf ∉ intText statusCode := notMem_intText rfl statusCode
    rw [List.mem_append, List.mem_append, List.mem_cons]
    rintro ((hmem | hmem) | hmem | hmem)
    · exact hversion.1 hmem
    · exact hcode hmem
    · exact hversion.2 hmem
    · exact h hmem
  nonempty := List.cons_ne_nil _ _
  noLength := fieldOf_of_head rfl rfl (by decide) (by decide)

theorem Message.sized_of_lines (front : List Bytes) {back : List Bytes}
    (hlines : m.lines = front ++ (ofString "Content-Length: " ++ natText m.body.length) :: back)
    (hfront : ∀ l ∈ front, Unsized l) (hback : HeaderLines back) : m.Sized where
  header := by
    have hname : lf ∉ ofString "Content-Length: " := by decide
    have hlength : lf ∉ natText m.body.length := fun hmem =>
      absurd (isdigit_natText hmem) (by decide)
    intro l hl
    rw [hlines] at hl
    rcases List.mem_append.mp hl with hl | hl
    · exact ⟨(hfront l hl).plain, (hfront l hl).nonempty⟩
    rcases List.mem_cons.mp hl with rfl | hl
    · refine ⟨?_, List.cons_ne_nil _ _⟩
      rw [List.mem_append]
      exact fun hmem => hmem.elim hname hlength
    · exact hback l hl
  nonempty := by simp [hlines]
  length := by
    rw [hlines]
    exact contentLength_append (fun l hl => (hfront l hl).noLength) m.body.length back

theorem crlfLines_header (h : HeaderLines m.lines) :
    (crlfLines (headerText m.lines ++ crlf)).dropLast = m.lines := by
  have hlast : crlfLines crlf = [[]] := by decide
  have hlines : ∀ l ∈ m.lines, ¬ crlf <:+: l := fun l hl hinside =>
    (h l hl).1 (hinside.subset (by decide))
  rw [crlfLines_headerText hlines, hlast, List.dropLast_concat]

theorem Message.Sized.readMessage_header (h : m.Sized) (behind : Bytes) :
    readMessage (headerText m.lines ++ crlf ++ behind) =
      if m.body.length ≤ behind.length then
        some (⟨m.lines, behind.take m.body.length⟩, behind.drop m.body.length)
      else none := by
  have hcloses := closes_header h.header h.nonempty
  have hread : readUntil (crlf ++ crlf) (headerText m.lines ++ crlf ++ behind) =
      some (headerText m.lines ++ crlf, behind) := readUntil_closes (by decide) hcloses behind
  rw [readMessage, hread]
  dsimp only
  rw [crlfLines_header h.header, h.length]

theorem Message.Sized.readMessage_text (h : m.Sized) (rest : Bytes) :
    readMessage (m.text ++ rest) = some (m, rest) := by
  have hlength : m.body.length ≤ (m.body ++ rest).length := by
    rw [List.length_append]
    exact Nat.le_add_right _ _
  rw [Message.text, List.append_assoc, h.readMessage_header, if_pos hlength, List.take_left,
    List.drop_left]

theorem Message.Sized.readMessage_take (h : m.Sized) {n : Nat} (hn : n < m.text.length) :
    readMessage (m.text.take n) = none := by
  by_cases hhead : n < (headerText m.lines ++ crlf).length
  · -- The empty line is not there yet.
    have hfresh := (closes_header h.header h.nonempty).fresh
    have hshort : m.text.take n <+: (headerText m.lines ++ crlf).dropLast := by
      rw [Message.text, List.take_append_of_le_length hhead.le, List.dropLast_eq_take]
      exact List.take_prefix_take_left (by omega)
    rw [readMessage]
    cases hread : readUntil (crlf ++ crlf) (m.text.take n) with
    | none => rfl
    | some parts =>
      obtain ⟨head, behind⟩ := parts
      obtain ⟨hcloses, htext⟩ := readUntil_some (by decide) hread
      refine absurd (hcloses.ends.isInfix.trans ?_) hfresh
      exact (List.prefix_append head behind).isInfix.trans (htext ▸ hshort.isInfix)
  · -- The body is not whole.
    obtain ⟨k, rfl⟩ := Nat.exists_eq_add_of_le (Nat.not_lt.mp hhead)
    have htext : m.text.length = (headerText m.lines ++ crlf).length + m.body.length := List.length_append
    have hk : ¬ m.body.length ≤ (m.body.take k).length := by
      rw [List.length_take]
      omega
    rw [Message.text, List.take_length_add_append, h.readMessage_header, if_neg hk]

theorem Message.Sized.readMessage_received (h : m.Sized) (n : Nat) :
    readMessage (m.text.take n) = if m.text.length ≤ n then some (m, []) else none := by
  by_cases hn : m.text.length ≤ n
  · rw [if_pos hn, List.take_of_length_le hn]
    have hread := h.readMessage_text []
    rwa [List.append_nil] at hread
  · rw [if_neg hn, h.readMessage_take (Nat.not_le.mp hn)]

end Lib.Framed
