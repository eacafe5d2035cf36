import ComputerNetworks.Lib.Walk
import ComputerNetworks.Dns.Message

/-!
# The DNS wire format

What a message is, said of the bytes alone: names as walks over a packet, records behind each
other, and the four counts of the header.
-/

open Lib Lib.Bytes

namespace Dns

/-! ## Names -/

inductive Part where
  | label (bytes : Bytes)
  | pointer
  deriving DecidableEq, Repr

/-- The parts of a name in the order in which they are met. -/
abbrev Path := List Part

def Path.labels : Path → List Bytes
  | [] => []
  | .label l :: path => l :: Path.labels path
  | .pointer :: path => Path.labels path

def Path.pointers : Path → Nat
  | [] => 0
  | .label _ :: path => Path.pointers path
  | .pointer :: path => Path.pointers path + 1

/-- `PartAt packet off part next`: the part of a name that stands at `off`, and where the name goes
on. The top bits of the length byte tell a pointer from a label. -/
inductive PartAt (packet : Bytes) (off : Nat) : Part → Nat → Prop where
  | label {n : UInt8} : packet[off]? = some n → 0 < n.toNat → n.toNat < 192 →
      off + n.toNat < packet.length →
      PartAt packet off (.label (slice packet (off + 1) n.toNat)) (off + (n.toNat + 1))
  | pointer {n low : UInt8} : packet[off]? = some n → 192 ≤ n.toNat → packet[off + 1]? = some low →
      PartAt packet off .pointer (n.toNat % 64 * 256 + low.toNat)

/-- `NameWalk packet off path z`: reading a name from `off` on, one meets `path` and is at `z`. -/
abbrev NameWalk (packet : Bytes) : Nat → Path → Nat → Prop := Walk (PartAt packet)

/-- Where the bytes of a name end that starts at `off`: behind its first pointer, or behind its zero
byte. -/
def Path.endOf (off : Nat) : Path → Nat
  | [] => off + 1
  | .label l :: path => Path.endOf (off + (l.length + 1)) path
  | .pointer :: _ => off + 2

/-- A whole name stands at `off`: its parts lead to a zero byte. Its own bytes end at `stop`. -/
structure NameAt (packet : Bytes) (off : Nat) (path : Path) (stop : Nat) : Prop where
  zero : ∃ z, NameWalk packet off path z ∧ packet[z]? = some 0
  ends : stop = path.endOf off

/-! ## Records -/

structure Question where
  name : Path
  type : DNSRecordType
  class_ : DNSClass

structure Record where
  owner : Path
  type : DNSRecordType
  class_ : DNSClass
  ttl : UInt32
  data : Bytes
  /-- The name in the data of an NS or CNAME record. -/
  target : Path

abbrev DNSRecordType.hasTarget (type : DNSRecordType) : Prop := type = .NS ∨ type = .CNAME

inductive QuestionAt (packet : Bytes) (off : Nat) (q : Question) : Nat → Prop where
  | mk {p : Nat} : NameAt packet off q.name p → p + 4 ≤ packet.length →
      read16 (packet.drop p) = q.type.value → read16 (packet.drop (p + 2)) = q.class_.value →
      QuestionAt packet off q (p + 4)

/-- What stands in a record behind its owner name, from `p` to `stop`. -/
structure BodyAt (packet : Bytes) (p : Nat) (r : Record) (stop : Nat) : Prop where
  ends : stop = p + 10 + r.data.length
  fits : stop ≤ packet.length
  type : read16 (packet.drop p) = r.type.value
  class_ : read16 (packet.drop (p + 2)) = r.class_.value
  ttl : read32 (packet.drop (p + 4)) = r.ttl
  dataLength : (read16 (packet.drop (p + 8))).toNat = r.data.length
  data : slice packet (p + 10) r.data.length = r.data
  target : r.type.hasTarget → NameAt packet (p + 10) r.target stop

inductive RecordAt (packet : Bytes) (off : Nat) (r : Record) (stop : Nat) : Prop where
  | mk {p : Nat} : NameAt packet off r.owner p → BodyAt packet p r stop → RecordAt packet off r stop

/-! ## Messages -/

structure Message where
  questions : List Question
  answers : List Record
  authority : List Record
  additional : List Record

/-- The names of a message that must be whole. -/
def Record.names (r : Record) : List Path :=
  if r.type.hasTarget then [r.owner, r.target] else [r.owner]

theorem Record.mem_names (r : Record) (path : Path) :
    path ∈ r.names ↔ path = r.owner ∨ r.type.hasTarget ∧ path = r.target := by
  unfold Record.names
  split
  · rename_i h
    simp only [List.mem_cons, List.not_mem_nil, or_false, h, true_and]
  · rename_i h
    simp only [List.mem_cons, List.not_mem_nil, or_false, h, false_and]

def Message.records (m : Message) : List Record := m.answers ++ m.authority ++ m.additional

def Message.names (m : Message) : List Path :=
  m.questions.map (·.name) ++ (m.records.map Record.names).flatten

theorem Message.forall_names (m : Message) (P : Path → Prop) :
    (∀ path ∈ m.names, P path) ↔
      (∀ q ∈ m.questions, P q.name) ∧ ∀ r ∈ m.records, ∀ path ∈ r.names, P path := by
  simp only [Message.names, List.mem_append, List.mem_map, List.mem_flatten]
  constructor
  · intro h
    exact ⟨fun q hq => h _ (Or.inl ⟨q, hq, rfl⟩),
      fun r hr path hpath => h _ (Or.inr ⟨_, ⟨r, hr, rfl⟩, hpath⟩)⟩
  · rintro ⟨hq, hr⟩ path (⟨q, hmem, rfl⟩ | ⟨_, ⟨r, hmem, rfl⟩, hpath⟩)
    · exact hq q hmem
    · exact hr r hmem path hpath

/-- The four sections stand behind each other, from the header on. What follows them is open. -/
inductive SectionsAt (packet : Bytes) (m : Message) : Prop where
  | mk {o₁ o₂ o₃ o₄ : Nat} :
      Walk (QuestionAt packet) 12 m.questions o₁ → Walk (RecordAt packet) o₁ m.answers o₂ →
      Walk (RecordAt packet) o₂ m.authority o₃ → Walk (RecordAt packet) o₃ m.additional o₄ →
      SectionsAt packet m

/-- The packet is the message: a header that counts what follows it. -/
structure MessageAt (packet : Bytes) (m : Message) : Prop where
  header : 12 ≤ packet.length
  qdcount : (read16 (packet.drop 4)).toNat = m.questions.length
  ancount : (read16 (packet.drop 6)).toNat = m.answers.length
  nscount : (read16 (packet.drop 8)).toNat = m.authority.length
  arcount : (read16 (packet.drop 10)).toNat = m.additional.length
  sections : SectionsAt packet m

/-! ## Lemmas on names -/

@[simp] theorem labels_append (p q : Path) :
    Path.labels (p ++ q) = Path.labels p ++ Path.labels q := by
  induction p with
  | nil => rfl
  | cons part p ih => cases part <;> simp [Path.labels, ih]

@[simp] theorem pointers_append (p q : Path) :
    Path.pointers (p ++ q) = Path.pointers p + Path.pointers q := by
  induction p with
  | nil => simp [Path.pointers]
  | cons part p ih => cases part <;> simp only [List.cons_append, Path.pointers, ih]; omega

theorem endOf_append (off : Nat) {p : Path} (h : 0 < p.pointers) (q : Path) :
    Path.endOf off (p ++ q) = p.endOf off := by
  induction p generalizing off with
  | nil => simp [Path.pointers] at h
  | cons part p ih =>
    cases part with
    | label l => exact ih _ h
    | pointer => rfl

theorem label_of_partAt {packet : Bytes} {off next : Nat} {l : Bytes}
    (h : PartAt packet off (.label l) next) : 0 < l.length ∧ next = off + (l.length + 1) := by
  cases h with
  | @label n _ hpos _ hfit =>
    have hlen := slice_length packet (off + 1) n.toNat (by omega)
    exact ⟨by omega, by rw [hlen]⟩

theorem endOf_behind {packet : Bytes} {off z : Nat} {path : Path} (h : NameWalk packet off path z)
    (hp : path.pointers = 0) (rest : Path) : Path.endOf off (path ++ rest) = rest.endOf z := by
  induction h with
  | nil => rfl
  | @cons off _ _ part _ hs _ ih =>
    cases part with
    | label l =>
      rw [List.cons_append, Path.endOf, ← (label_of_partAt hs).2]
      exact ih hp
    | pointer => simp [Path.pointers] at hp

theorem endOf_plain {packet : Bytes} {off z : Nat} {path : Path} (h : NameWalk packet off path z)
    (hp : path.pointers = 0) : path.endOf off = z + 1 := by
  have hend := endOf_behind h hp []
  rw [List.append_nil] at hend
  exact hend

theorem walk_plain {packet : Bytes} {off z : Nat} {path : Path} (h : NameWalk packet off path z)
    (hp : path.pointers = 0) : off ≤ z ∧ (off ≤ packet.length → z ≤ packet.length) := by
  induction h with
  | nil => exact ⟨le_refl _, id⟩
  | @cons off _ _ part _ hs _ ih =>
    cases hs with
    | label hn _ _ hfit =>
      obtain ⟨hle, hsize⟩ := ih hp
      exact ⟨by omega, fun _ => hsize (by omega)⟩
    | pointer => simp [Path.pointers] at hp

theorem endOf_bounds {packet : Bytes} {off z : Nat} {path : Path} (h : NameWalk packet off path z)
    (hp : 0 < path.pointers) : off < path.endOf off ∧ path.endOf off ≤ packet.length := by
  induction h with
  | nil => simp [Path.pointers] at hp
  | @cons off _ _ part _ hs _ ih =>
    cases part with
    | label l =>
      obtain ⟨hlt, hle⟩ := ih hp
      rw [Path.endOf, ← (label_of_partAt hs).2]
      have := (label_of_partAt hs).2
      exact ⟨by omega, hle⟩
    | pointer =>
      cases hs with
      | pointer _ _ hlow =>
        obtain ⟨hlt, -⟩ := List.getElem?_eq_some_iff.mp hlow
        simp only [Path.endOf]
        omega

theorem partAt_deterministic (packet : Bytes) : Deterministic (PartAt packet) := by
  intro off i j t u h h'
  cases h with
  | label hn _ hlt _ =>
    cases h' with
    | label hn' _ _ _ => rw [hn] at hn'; cases hn'; exact ⟨rfl, rfl⟩
    | pointer hn' hge _ => rw [hn] at hn'; cases hn'; omega
  | pointer hn hge hlow =>
    cases h' with
    | label hn' _ hlt _ => rw [hn] at hn'; cases hn'; omega
    | pointer hn' _ hlow' =>
      rw [hn] at hn'; rw [hlow] at hlow'; cases hn'; cases hlow'; exact ⟨rfl, rfl⟩

theorem stuck_of_zero {packet : Bytes} {z : Nat} (h : packet[z]? = some 0) :
    Stuck (PartAt packet) z := by
  intro i t hp
  cases hp with
  | label hn hpos _ _ => rw [h] at hn; cases hn; simp at hpos
  | pointer hn hge _ => rw [h] at hn; cases hn; simp at hge

/-- A name cannot be read on at `z`: neither a zero byte nor a part stands there. -/
def Cut (packet : Bytes) (z : Nat) : Prop := packet[z]? ≠ some 0 ∧ Stuck (PartAt packet) z

theorem labels_ne_nil {packet : Bytes} {off z : Nat} {path : Path}
    (h : NameWalk packet off path z) : ∀ l ∈ path.labels, l ≠ [] := by
  induction h with
  | nil => simp [Path.labels]
  | @cons _ _ _ part _ hs _ ih =>
    cases part with
    | label l =>
      intro l' hl'
      rcases List.mem_cons.mp hl' with rfl | hl'
      · exact List.ne_nil_of_length_pos (label_of_partAt hs).1
      · exact ih l' hl'
    | pointer => exact ih

theorem NameAt.lt {packet : Bytes} {off stop : Nat} {path : Path}
    (h : NameAt packet off path stop) : off < packet.length := by
  obtain ⟨z, hwalk, hzero⟩ := h.zero
  cases hwalk with
  | nil => exact (List.getElem?_eq_some_iff.mp hzero).1
  | cons hs _ =>
    cases hs with
    | label hn _ _ _ => exact (List.getElem?_eq_some_iff.mp hn).1
    | pointer hn _ _ => exact (List.getElem?_eq_some_iff.mp hn).1

theorem join_labels_eq_nil {packet : Bytes} {off z : Nat} {path : Path}
    (h : NameWalk packet off path z) : Text.join dot path.labels = [] ↔ path.labels = [] :=
  Text.join_eq_nil dot (labels_ne_nil h)

end Dns
