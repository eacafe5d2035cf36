import ComputerNetworks.Dns.Decode

/-!
# Queries

`createDNSQuery`, and which names of a packet it can ask for.
-/

open Lib Lib.Bytes

namespace Dns

variable {packet : Bytes} {off stop : Nat}

/-! ## `createDNSQuery` -/

/-- The loop over the labels, with what it throws. -/
def encodeLabels : List Bytes → Except String Bytes
  | [] => .ok []
  | label :: labels =>
    if 63 < label.length then .error "Label too long"
    else do
      let rest ← encodeLabels labels
      return UInt8.ofNat label.length :: label ++ rest

def queryHeader (id : UInt16) : Bytes :=
  be16 id ++ be16 0x0000 ++ be16 1 ++ be16 0 ++ be16 0 ++ be16 0

def createDNSQuery (id : UInt16) (domain : Bytes) (type : DNSRecordType) : Except String Bytes := do
  let qname ← encodeLabels (Text.getlines dot domain)
  return queryHeader id ++ qname ++ [0] ++ be16 type.value ++ be16 DNSClass.IN.value

/-! ## What a query says -/

def wireLabels (labels : List Bytes) : Bytes :=
  labels.flatMap fun label => UInt8.ofNat label.length :: label

/-- The query that asks for a name with these labels. -/
def queryFor (id : UInt16) (labels : List Bytes) (type : DNSRecordType) : Bytes :=
  queryHeader id ++ wireLabels labels ++ [0] ++ be16 type.value ++ be16 DNSClass.IN.value

theorem encodeLabels_spec (labels : List Bytes) :
    (∀ l ∈ labels, l.length ≤ 63) ∧ encodeLabels labels = .ok (wireLabels labels) ∨
      (∃ l ∈ labels, 63 < l.length) ∧ encodeLabels labels = .error "Label too long" := by
  induction labels with
  | nil => exact Or.inl ⟨by simp, rfl⟩
  | cons label labels ih =>
    rw [encodeLabels]
    by_cases hlong : 63 < label.length
    · exact Or.inr ⟨⟨label, by simp, hlong⟩, if_pos hlong⟩
    · rw [if_neg hlong]
      rcases ih with ⟨hall, henc⟩ | ⟨⟨l, hl, hlen⟩, henc⟩
      · refine Or.inl ⟨?_, by rw [henc]; rfl⟩
        intro l hl
        rcases List.mem_cons.mp hl with rfl | hl
        · exact not_lt.mp hlong
        · exact hall l hl
      · exact Or.inr ⟨⟨l, List.mem_cons_of_mem _ hl, hlen⟩, by rw [henc]; rfl⟩

theorem createDNSQuery_spec (id : UInt16) (domain : Bytes) (type : DNSRecordType) :
    (∀ l ∈ Text.getlines dot domain, l.length ≤ 63) ∧
        createDNSQuery id domain type = .ok (queryFor id (Text.getlines dot domain) type) ∨
      (∃ l ∈ Text.getlines dot domain, 63 < l.length) ∧
        createDNSQuery id domain type = .error "Label too long" := by
  rcases encodeLabels_spec (Text.getlines dot domain) with ⟨hall, henc⟩ | ⟨hlong, henc⟩
  · exact Or.inl ⟨hall, by rw [createDNSQuery, henc]; rfl⟩
  · exact Or.inr ⟨hlong, by rw [createDNSQuery, henc]; rfl⟩

theorem wireLabels_injective {a b : List Bytes} (ha : ∀ l ∈ a, l.length < 256)
    (hb : ∀ l ∈ b, l.length < 256) (h : wireLabels a = wireLabels b) : a = b := by
  induction a generalizing b with
  | nil =>
    cases b with
    | nil => rfl
    | cons l b => simp [wireLabels] at h
  | cons l a ih =>
    cases b with
    | nil => simp [wireLabels] at h
    | cons l' b =>
      simp only [wireLabels, List.flatMap_cons, List.cons_append, List.cons.injEq] at h
      obtain ⟨hlen, htail⟩ := h
      have hl := ha l (by simp)
      have hl' := hb l' (by simp)
      have hlen' : l.length = l'.length := by
        have := congrArg UInt8.toNat hlen
        simpa [Nat.mod_eq_of_lt hl, Nat.mod_eq_of_lt hl'] using this
      obtain ⟨rfl, hrest⟩ := List.append_inj htail hlen'
      rw [ih (fun x hx => ha x (List.mem_cons_of_mem _ hx))
        (fun x hx => hb x (List.mem_cons_of_mem _ hx)) hrest]

/-! ## The labels that a packet carries -/

/-- `Carries packet off labels`: the labels that one meets reading on from `off`, as far as that
leads. -/
structure Carries (packet : Bytes) (off : Nat) (labels : List Bytes) : Prop where
  met : ∃ path z, NameWalk packet off path z ∧ path.labels = labels
  all : ∀ path z, NameWalk packet off path z → path.labels <+: labels

/-- A label that the encoder can write back stands within the decoder's jumps, is at most 63 bytes
long, and holds no dot. -/
def Encodable (packet : Bytes) (off : Nat) : Prop :=
  ∀ (path : Path) (l : Bytes) (z : Nat), NameWalk packet off (path ++ [.label l]) z →
    l.length ≤ 63 ∧ dot ∉ l ∧ path.pointers ≤ 9

theorem NameAt.carries {path : Path} (h : NameAt packet off path stop) :
    Carries packet off path.labels := by
  obtain ⟨z, hwalk, hzero⟩ := h.zero
  refine ⟨⟨path, z, hwalk, rfl⟩, fun path' z' hwalk' => ?_⟩
  obtain ⟨rest, rfl, -⟩ :=
    hwalk.of_stuck (partAt_deterministic packet) (stuck_of_zero hzero) hwalk'
  rw [labels_append]
  exact List.prefix_append _ _

theorem label_length_of_partAt {l : Bytes} {next : Nat} (h : PartAt packet off (.label l) next) :
    l.length < 192 := by
  cases h with
  | @label n _ _ hlt hfit => rwa [slice_length packet (off + 1) n.toNat (by omega)]

theorem exists_walk_of_label {path : Path} {z : Nat} (h : NameWalk packet off path z) {l : Bytes}
    (hl : l ∈ path.labels) : ∃ p q y, path = p ++ [.label l] ++ q ∧
      NameWalk packet off (p ++ [.label l]) y := by
  have hsplit : ∃ p q, path = p ++ [.label l] ++ q := by
    clear h
    induction path with
    | nil => simp [Path.labels] at hl
    | cons part path ih =>
      cases part with
      | label l' =>
        rcases List.mem_cons.mp hl with rfl | hl
        · exact ⟨[], path, rfl⟩
        · obtain ⟨p, q, rfl⟩ := ih hl
          exact ⟨.label l' :: p, q, rfl⟩
      | pointer =>
        obtain ⟨p, q, rfl⟩ := ih hl
        exact ⟨.pointer :: p, q, rfl⟩
  obtain ⟨p, q, rfl⟩ := hsplit
  obtain ⟨y, hy, -⟩ := h.split
  exact ⟨p, q, y, rfl, hy⟩

theorem label_lt_of_mem {path : Path} {z : Nat} (h : NameWalk packet off path z) {l : Bytes}
    (hl : l ∈ path.labels) : l.length < 192 := by
  obtain ⟨p, q, y, -, hy⟩ := exists_walk_of_label h hl
  obtain ⟨t, -, hpart⟩ := hy.split
  cases hpart with
  | cons hat _ => exact label_length_of_partAt hat

theorem Stops.stuck {read : Path} {z : Nat} (h : Stops packet read z)
    (hjumps : read.pointers ≠ maxJumps) : Stuck (PartAt packet) z := by
  cases h with
  | zero _ hzero => exact stuck_of_zero hzero
  | cut _ hcut => exact hcut.2
  | limit _ hlimit => exact absurd hlimit hjumps

theorem Stops.early {path q : Path} {l : Bytes} {z : Nat}
    (h : Stops packet (path ++ [.label l] ++ q) z) : path.pointers ≤ 9 := by
  have hcount : Path.pointers (path ++ [.label l] ++ q) = path.pointers + q.pointers := by
    simp [Path.pointers]
  have hmax : maxJumps = 10 := rfl
  cases h with
  | zero hlt _ => omega
  | cut hlt _ => omega
  | limit hlast hlimit =>
    rcases List.eq_nil_or_concat q with rfl | ⟨q, part, rfl⟩
    · rw [List.append_nil] at hlast
      cases (List.append_inj' hlast rfl).2
    · rw [List.concat_eq_append, ← List.append_assoc] at hlast
      cases (List.append_inj' hlast rfl).2
      rw [hcount] at hlimit
      simp only [List.concat_eq_append, pointers_append, Path.pointers, maxJumps] at hlimit
      omega

/-- A label that one can come to has been read by the code, or stands behind ten pointers. -/
theorem label_read_or_late {read path : Path} {l : Bytes} {z y : Nat}
    (hread : NameWalk packet off read z) (hstops : Stops packet read z)
    (h : NameWalk packet off (path ++ [.label l]) y) :
    (path.pointers ≤ 9 ∧ ∃ q, read = path ++ [.label l] ++ q) ∨
      (10 ≤ path.pointers ∧ ∃ q, path = read ++ q) := by
  rcases hread.comparable (partAt_deterministic packet) h with ⟨q, hq, hrest⟩ | ⟨q, rfl, -⟩
  · rcases List.eq_nil_or_concat q with rfl | ⟨q, part, rfl⟩
    · rw [List.append_nil] at hq
      subst hq
      rw [← List.append_nil (path ++ _)] at hstops
      exact Or.inl ⟨hstops.early, [], by simp⟩
    · -- The label stands behind all that was read, so the jumps had run out.
      have hlimit : read.pointers = maxJumps := by
        by_contra hjumps
        obtain ⟨hnil, -⟩ := hrest.nil_of_stuck (hstops.stuck hjumps)
        simp at hnil
      rw [List.concat_eq_append, ← List.append_assoc] at hq
      obtain ⟨rfl, -⟩ := List.append_inj' hq rfl
      rw [pointers_append, hlimit]
      exact Or.inr ⟨Nat.le_add_right _ _, q, rfl⟩
  · exact Or.inl ⟨hstops.early, q, rfl⟩

theorem Carries.eq_read {read : Path} {z : Nat} {labels : List Bytes}
    (h : Carries packet off labels) (hread : NameWalk packet off read z)
    (hlines : Text.getlines dot (Text.join dot read.labels) = labels) : read.labels = labels := by
  have hfront := h.all read z hread
  rw [← hlines, Text.getlines_join]
  intro l hl
  refine ⟨labels_ne_nil hread l hl, ?_⟩
  have hmem := hfront.subset hl
  rw [← hlines] at hmem
  exact Text.getlines_notMem dot _ l hmem

theorem Encodable.carries {read : Path} {z : Nat} (h : Encodable packet off)
    (hread : NameWalk packet off read z) (hstops : Stops packet read z) :
    Carries packet off read.labels := by
  refine ⟨⟨read, z, hread, rfl⟩, fun path y hwalk => ?_⟩
  rcases hread.comparable (partAt_deterministic packet) hwalk with ⟨q, rfl, hrest⟩ | ⟨q, rfl, -⟩
  · have hq : Path.labels q = [] := by
      rw [List.eq_nil_iff_forall_not_mem]
      intro l hl
      obtain ⟨p, q', x, rfl, hx⟩ := exists_walk_of_label hrest hl
      have hlate := hread.append hx
      rw [← List.append_assoc] at hlate
      obtain ⟨-, -, hjumps⟩ := h (read ++ p) l x hlate
      rcases label_read_or_late hread hstops hlate with ⟨-, q'', heq⟩ | ⟨hge, -⟩
      · -- The walk to the label would be shorter than its own front.
        have hlen := congrArg List.length heq
        rw [List.length_append, List.length_append, List.length_append, List.length_singleton]
          at hlen
        omega
      · omega
    have hsame : Path.labels (read ++ q) = read.labels := by
      rw [labels_append, hq, List.append_nil]
    exact hsame ▸ List.prefix_refl _
  · rw [labels_append]
    exact List.prefix_append _ _

/-- **Names come back.** The query that the code builds for a name of a packet asks for the labels
that the packet carries there, exactly if each of them can be written back. -/
theorem query_iff_encodable (id : UInt16) (type : DNSRecordType) {name : Bytes}
    (h : parseDNSName packet off = .ok (name, stop)) :
    (∃ labels, Carries packet off labels ∧
      createDNSQuery id name type = .ok (queryFor id labels type)) ↔ Encodable packet off := by
  obtain ⟨read, z, hread, hstops, hparse⟩ := parseDNSName_spec packet off
  obtain ⟨rfl, -⟩ : Text.join dot read.labels = name ∧ _ = stop := by
    rw [hparse] at h
    simpa using h
  constructor
  · rintro ⟨labels, ⟨⟨path, y, hwalk, rfl⟩, hall⟩, hquery⟩
    rcases createDNSQuery_spec id (Text.join dot read.labels) type with ⟨hshort, hok⟩ | ⟨-, herr⟩
    swap
    · rw [herr] at hquery; cases hquery
    rw [hok] at hquery
    have hlines : Text.getlines dot (Text.join dot read.labels) = path.labels := by
      refine wireLabels_injective (fun l hl => by have := hshort l hl; omega)
        (fun l hl => by have := label_lt_of_mem hwalk hl; omega) ?_
      simpa [queryFor] using hquery
    have hall' : Carries packet off path.labels := ⟨⟨path, y, hwalk, rfl⟩, hall⟩
    have hall_read := hall'.eq_read hread hlines
    intro p l x hp
    have hfront := hall _ _ hp
    rw [labels_append] at hfront
    have hmem : l ∈ path.labels := hfront.subset (by simp [Path.labels])
    refine ⟨hshort l (hlines ▸ hmem), ?_, ?_⟩
    · rw [← hlines] at hmem
      exact Text.getlines_notMem dot _ l hmem
    · rcases label_read_or_late hread hstops hp with ⟨hle, -⟩ | ⟨-, q, rfl⟩
      · exact hle
      · -- A label behind all that was read is one label too many.
        have hlen := hfront.length_le
        rw [labels_append, ← hall_read] at hlen
        simp [Path.labels] at hlen
  · intro henc
    have hlabels : ∀ l ∈ read.labels, l.length ≤ 63 ∧ l ≠ [] ∧ dot ∉ l := by
      intro l hl
      obtain ⟨p, q, y, -, hy⟩ := exists_walk_of_label hread hl
      obtain ⟨hle, hdot, -⟩ := henc p l y hy
      exact ⟨hle, labels_ne_nil hread l hl, hdot⟩
    have hlines := Text.getlines_join dot fun l hl => (hlabels l hl).2
    refine ⟨read.labels, henc.carries hread hstops, ?_⟩
    rcases createDNSQuery_spec id (Text.join dot read.labels) type with
      ⟨-, hok⟩ | ⟨⟨l, hl, hlen⟩, -⟩
    · rw [hok, hlines]
    · rw [hlines] at hl
      exact absurd (hlabels l hl).1 (not_le.mpr hlen)

end Dns
