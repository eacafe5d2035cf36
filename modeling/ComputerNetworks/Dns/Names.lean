import ComputerNetworks.Dns.Parse
import ComputerNetworks.Dns.Wire

/-!
# What `parseDNSName` reads

The loop walks along the name in the packet, and stops at a zero byte, where the name is cut, or
behind its tenth jump.
-/

open Lib Lib.Bytes

namespace Dns

variable {packet : Bytes} {off : Nat}

/-! ## One turn -/

theorem pointer_toNat (length low : UInt8) :
    (pointer length low).toNat = length.toNat % 64 * 256 + low.toNat := by
  have hlow := low.toNat_lt
  have hand : (length &&& 0x3F).toNat = length.toNat % 64 := by
    rw [UInt8.toNat_and]
    exact Nat.and_two_pow_sub_one_eq_mod length.toNat 6
  have hshift : ((length &&& 0x3F).toUInt16 <<< 8).toNat = (length.toNat % 64) <<< 8 := by
    have h8 : (8 : UInt16).toNat % 16 = 8 := rfl
    rw [UInt16.toNat_shiftLeft, UInt8.toNat_toUInt16, hand, h8, Nat.shiftLeft_eq]
    omega
  rw [pointer, UInt16.toNat_or, hshift, UInt8.toNat_toUInt16,
    ← Nat.shiftLeft_add_eq_or_of_lt (by simpa using hlow), Nat.shiftLeft_eq]

theorem topBits_iff (n : UInt8) : n &&& 0xC0 = 0xC0 ↔ 192 ≤ n.toNat := by
  have h : ∀ k : Fin 256, UInt8.ofNat k.val &&& 0xC0 = 0xC0 ↔ 192 ≤ k.val := by decide +kernel
  simpa using h ⟨n.toNat, n.toNat_lt⟩

def NameState.advance (s : NameState) (next : Nat) : Part → NameState
  | .label l => s.append l
  | .pointer => s.jump next

theorem nameTurn_limit {s : NameState} (hj : maxJumps ≤ s.jumpCount) :
    nameTurn packet s = .ok (.leave s) := by
  rw [nameTurn, if_neg (by omega)]
  rfl

theorem nameTurn_zero {s : NameState} (hj : s.jumpCount < maxJumps)
    (h : packet[s.offset]? = some 0) :
    nameTurn packet s = .ok (.leave { s with offset := s.offset + 1 }) := by
  obtain ⟨hoff, -⟩ := List.getElem?_eq_some_iff.mp h
  rw [nameTurn, if_pos ⟨hoff, hj⟩, byteAt_of_getElem? h]
  rfl

theorem nameTurn_part {s : NameState} (hj : s.jumpCount < maxJumps) {part : Part} {next : Nat}
    (h : PartAt packet s.offset part next) :
    nameTurn packet s = .ok (.next (s.advance next part)) := by
  cases h with
  | @label n hn hpos hlt hfit =>
    have htop : n &&& 0xC0 ≠ 0xC0 := fun h => absurd ((topBits_iff n).mp h) (by omega)
    have hzero : n ≠ 0 := by rintro rfl; simp at hpos
    have hlabel := bytesAt_eq packet n.toNat (s.offset + 1) (by omega)
    rw [nameTurn, if_pos ⟨by omega, hj⟩, byteAt_of_getElem? hn]
    simp only [bind, Except.bind, if_neg htop, if_neg hzero, if_neg (not_le.mpr hfit), hlabel]
    rfl
  | @pointer n low hn hge hlow =>
    have htop := (topBits_iff n).mpr hge
    obtain ⟨hnext, -⟩ := List.getElem?_eq_some_iff.mp hlow
    rw [nameTurn, if_pos ⟨by omega, hj⟩, byteAt_of_getElem? hn]
    simp only [bind, Except.bind, if_pos htop, if_neg (not_le.mpr hnext), byteAt_of_getElem? hlow,
      NameState.advance, ← pointer_toNat]
    rfl

theorem nameTurn_cut {s : NameState} (hj : s.jumpCount < maxJumps) (h : Cut packet s.offset) :
    nameTurn packet s = .ok (.leave s) := by
  obtain ⟨hzero, hstuck⟩ := h
  by_cases hoff : s.offset < packet.length
  swap
  · rw [nameTurn, if_neg (by omega)]
    rfl
  obtain ⟨n, hn⟩ : ∃ n, packet[s.offset]? = some n := ⟨_, List.getElem?_eq_getElem hoff⟩
  rw [nameTurn, if_pos ⟨hoff, hj⟩, byteAt_of_getElem? hn]
  by_cases htop : n &&& 0xC0 = 0xC0
  · have hnext : packet.length ≤ s.offset + 1 := by
      by_contra hlt
      exact hstuck _ _ (.pointer hn ((topBits_iff n).mp htop)
        (List.getElem?_eq_getElem (not_le.mp hlt)))
    simp only [bind, Except.bind, if_pos htop, if_pos hnext]
    rfl
  · have hlt : n.toNat < 192 := not_le.mp (mt (topBits_iff n).mpr htop)
    have hne : n ≠ 0 := by rintro rfl; exact hzero hn
    have hpos : 0 < n.toNat :=
      Nat.pos_of_ne_zero fun h => hne (UInt8.toNat_inj.mp (by simpa using h))
    have hfit : packet.length ≤ s.offset + n.toNat := by
      by_contra hfit
      exact hstuck _ _ (.label hn hpos hlt (not_le.mp hfit))
    simp only [bind, Except.bind, if_neg htop, if_neg hne, if_pos hfit]
    rfl

/-! ## The loop -/

/-- Where the loop stops that has read `path` and is at `z`. -/
inductive Stops (packet : Bytes) (path : Path) (z : Nat) : Prop where
  | zero : path.pointers < maxJumps → packet[z]? = some 0 → Stops packet path z
  | cut : path.pointers < maxJumps → Cut packet z → Stops packet path z
  | limit {front : Path} : path = front ++ [.pointer] → path.pointers = maxJumps →
      Stops packet path z

/-- The state of the loop that has read `path` from `off` on. -/
structure Reading (packet : Bytes) (off : Nat) (path : Path) (s : NameState) : Prop where
  walk : NameWalk packet off path s.offset
  name : s.name = Text.join dot path.labels
  jumpCount : s.jumpCount = path.pointers
  jumps : path.pointers ≤ maxJumps
  last : path.pointers = maxJumps → ∃ front, path = front ++ [.pointer]
  jumped : s.jumped = decide (0 < path.pointers)
  startOffset : 0 < path.pointers → s.startOffset = path.endOf off

theorem Reading.start (packet : Bytes) (off : Nat) : Reading packet off [] (.start off) :=
  ⟨.nil off, rfl, rfl, Nat.zero_le _, fun h => absurd h (by decide), rfl,
    fun h => absurd h (lt_irrefl 0)⟩

theorem Reading.advance {path : Path} {s : NameState} (h : Reading packet off path s)
    (hj : s.jumpCount < maxJumps) {part : Part} {next : Nat}
    (hp : PartAt packet s.offset part next) :
    Reading packet off (path ++ [part]) (s.advance next part) := by
  have hwalk := h.walk.snoc hp
  have hcount := h.jumpCount
  cases part with
  | label l =>
    obtain ⟨-, hnext⟩ := label_of_partAt hp
    refine ⟨?_, ?_, ?_, ?_, ?_, ?_, ?_⟩
    · rw [hnext] at hwalk; exact hwalk
    · have hnil := join_labels_eq_nil h.walk
      simp only [NameState.advance, NameState.append, labels_append, Path.labels, h.name]
      by_cases hl : path.labels = []
      · simp [hl]
      · rw [if_pos (by rw [Ne, hnil]; exact hl), Text.join_append_singleton _ _ hl]
        simp
    · simp [NameState.advance, NameState.append, hcount, Path.pointers]
    · simpa [Path.pointers] using h.jumps
    · intro hmax
      simp only [pointers_append, Path.pointers, Nat.add_zero] at hmax
      omega
    · simpa [NameState.advance, NameState.append, Path.pointers] using h.jumped
    · intro hpos
      simp only [pointers_append, Path.pointers, Nat.add_zero] at hpos
      rw [endOf_append off hpos]
      exact h.startOffset hpos
  | pointer =>
    refine ⟨hwalk, ?_, ?_, ?_, fun _ => ⟨path, rfl⟩, ?_, ?_⟩
    · simpa [NameState.advance, NameState.jump, Path.labels] using h.name
    · simp [NameState.advance, NameState.jump, hcount, Path.pointers]
    · simp only [pointers_append, Path.pointers]; omega
    · simp [NameState.advance, NameState.jump, Path.pointers]
    · intro _
      simp only [NameState.advance, NameState.jump, h.jumped, decide_eq_true_eq]
      by_cases hpos : 0 < path.pointers
      · rw [if_pos hpos, endOf_append off hpos]
        exact h.startOffset hpos
      · rw [if_neg hpos, endOf_behind h.walk (by omega), Path.endOf]

/-! ## The loop as a whole -/

/-- The offset that a call leaves behind, which has read `path` up to `z`. -/
def leftBehind (packet : Bytes) (off : Nat) (path : Path) (z : Nat) : Nat :=
  if 0 < path.pointers ∨ packet[z]? = some 0 then path.endOf off else z

theorem Reading.leftBehind {path : Path} {s : NameState} (h : Reading packet off path s) {z o : Nat}
    (hplain : path.pointers = 0 → o = leftBehind packet off path z) :
    (if s.jumped then s.startOffset else o) = leftBehind packet off path z := by
  by_cases hpos : 0 < path.pointers
  · rw [h.jumped, decide_eq_true hpos, if_pos rfl, h.startOffset hpos, Dns.leftBehind,
      if_pos (Or.inl hpos)]
  · rw [h.jumped, decide_eq_false hpos, if_neg Bool.false_ne_true]
    exact hplain (by omega)

/-- A part uses up bytes or a jump: a label comes nearer to the end of the packet, and a pointer
starts a new way through it. -/
def nameMeasure (packet : Bytes) (s : NameState) : Nat :=
  (maxJumps - s.jumpCount) * (packet.length + 1) + (packet.length - s.offset)

theorem nameMeasure_advance {s : NameState} (hj : s.jumpCount < maxJumps) {part : Part} {next : Nat}
    (hp : PartAt packet s.offset part next) :
    nameMeasure packet (s.advance next part) < nameMeasure packet s := by
  unfold nameMeasure
  cases part with
  | label l =>
    obtain ⟨hpos, hnext⟩ := label_of_partAt hp
    have hle : s.offset < packet.length := by
      cases hp with
      | label hn _ _ hfit => omega
    simp only [NameState.advance, NameState.append]
    omega
  | pointer =>
    have hsplit : maxJumps - s.jumpCount = maxJumps - (s.jumpCount + 1) + 1 := by omega
    simp only [NameState.advance, NameState.jump]
    rw [hsplit, Nat.add_mul, Nat.one_mul]
    omega

theorem nameLoop_spec (packet : Bytes) (off : Nat) :
    ∃ s, loop (nameTurn packet) (nameTurns packet) (.start off) = .ok s ∧
      s.jumpCount ≤ maxJumps ∧ ∃ path z, NameWalk packet off path z ∧ Stops packet path z ∧
        s.name = Text.join dot path.labels ∧
        (if s.jumped then s.startOffset else s.offset) = leftBehind packet off path z := by
  refine loop_spec (I := fun s => ∃ path, Reading packet off path s) (nameMeasure packet) ?_
    (nameTurns packet) (.start off) ⟨[], .start packet off⟩ ?_
  · rintro s ⟨path, h⟩
    have hcount := h.jumpCount
    by_cases hj : s.jumpCount < maxJumps
    swap
    · -- The tenth jump ended the loop.
      have hlimit : path.pointers = maxJumps := by have := h.jumps; omega
      obtain ⟨front, hlast⟩ := h.last hlimit
      refine Or.inr ⟨s, nameTurn_limit (not_lt.mp hj), by have := h.jumps; omega, path, s.offset,
        h.walk, .limit hlast hlimit, h.name, h.leftBehind fun hplain => ?_⟩
      rw [hplain] at hlimit
      exact absurd hlimit (by decide)
    by_cases hzero : packet[s.offset]? = some 0
    · -- A zero byte ends the name, and is part of it.
      refine Or.inr ⟨_, nameTurn_zero hj hzero, by simpa using hj.le, path, s.offset, h.walk,
        .zero (by omega) hzero, h.name, h.leftBehind fun hplain => ?_⟩
      rw [leftBehind, if_pos (Or.inr hzero), endOf_plain h.walk hplain]
    by_cases hstuck : Stuck (PartAt packet) s.offset
    · -- The name is cut: the loop breaks where it is.
      refine Or.inr ⟨s, nameTurn_cut hj ⟨hzero, hstuck⟩, hj.le, path, s.offset, h.walk,
        .cut (by omega) ⟨hzero, hstuck⟩, h.name, h.leftBehind fun hplain => ?_⟩
      rw [leftBehind, if_neg (by simp [hplain, hzero])]
    · simp only [Stuck, not_forall, not_not] at hstuck
      obtain ⟨part, next, hp⟩ := hstuck
      exact Or.inl ⟨_, nameTurn_part hj hp, ⟨_, h.advance hj hp⟩, nameMeasure_advance hj hp⟩
  · simp only [nameMeasure, NameState.start, nameTurns, Nat.sub_zero, Nat.add_mul]
    omega

theorem parseDNSName_spec (packet : Bytes) (off : Nat) :
    ∃ path z, NameWalk packet off path z ∧ Stops packet path z ∧
      parseDNSName packet off =
        .ok (Text.join dot path.labels, leftBehind packet off path z) := by
  obtain ⟨s, hs, -, path, z, hwalk, hstops, hname, hleft⟩ := nameLoop_spec packet off
  refine ⟨path, z, hwalk, hstops, ?_⟩
  rw [parseDNSName, hs, ← hname, ← hleft]
  rfl

theorem leftBehind_bounds {path : Path} {z : Nat} (h : NameWalk packet off path z)
    (hoff : off ≤ packet.length) :
    off ≤ leftBehind packet off path z ∧ leftBehind packet off path z ≤ packet.length := by
  unfold leftBehind
  by_cases hpos : 0 < path.pointers
  · rw [if_pos (Or.inl hpos)]
    obtain ⟨hlt, hle⟩ := endOf_bounds h hpos
    exact ⟨hlt.le, hle⟩
  · have hplain : path.pointers = 0 := by omega
    obtain ⟨hle, hsize⟩ := walk_plain h hplain
    split
    · rename_i hzero
      obtain ⟨hlt, -⟩ := List.getElem?_eq_some_iff.mp (hzero.resolve_left hpos)
      rw [endOf_plain h hplain]
      omega
    · exact ⟨hle, hsize hoff⟩

/-! ## Whole names -/

/-- Of a whole name the code reads a front, which is all of it unless the tenth jump comes first. -/
theorem exists_read_of_nameAt {path : Path} {stop : Nat} (h : NameAt packet off path stop) :
    ∃ read rest, path = read ++ rest ∧
      parseDNSName packet off = .ok (Text.join dot read.labels, stop) ∧
      (rest ≠ [] → read.pointers = maxJumps) ∧
      (read.pointers = maxJumps → ∃ front, read = front ++ [.pointer]) := by
  obtain ⟨⟨z, hwalk, hzero⟩, rfl⟩ := h
  obtain ⟨read, z', hread, hstops, hparse⟩ := parseDNSName_spec packet off
  obtain ⟨rest, rfl, hrest⟩ :=
    hwalk.of_stuck (partAt_deterministic packet) (stuck_of_zero hzero) hread
  refine ⟨read, rest, rfl, ?_⟩
  cases hstops with
  | zero hlt hzero' =>
    obtain ⟨rfl, -⟩ := hrest.nil_of_stuck (stuck_of_zero hzero')
    rw [leftBehind, if_pos (Or.inr hzero')] at hparse
    exact ⟨by rw [hparse, List.append_nil], fun h => absurd rfl h, fun h => absurd h hlt.ne⟩
  | cut _ hcut =>
    obtain ⟨-, rfl⟩ := hrest.nil_of_stuck hcut.2
    exact absurd hzero hcut.1
  | limit hlast hlimit =>
    have hpos : 0 < read.pointers := by rw [hlimit]; decide
    rw [leftBehind, if_pos (Or.inl hpos)] at hparse
    exact ⟨by rw [hparse, endOf_append off hpos], fun _ => hlimit, fun _ => ⟨_, hlast⟩⟩

theorem parseDNSName_of_nameAt {path : Path} {stop : Nat} (h : NameAt packet off path stop) :
    ∃ name, parseDNSName packet off = .ok (name, stop) ∧
      (path.pointers < maxJumps → name = Text.join dot path.labels) := by
  obtain ⟨read, rest, rfl, hparse, hall, -⟩ := exists_read_of_nameAt h
  refine ⟨_, hparse, fun hlt => ?_⟩
  by_cases hrest : rest = []
  · rw [hrest, List.append_nil]
  · have hlimit := hall hrest
    rw [pointers_append] at hlt
    omega

/-! ## Names at the limit -/

theorem eq_nil_of_labels {path : Path} (hp : path.pointers = 0) (hl : path.labels = []) :
    path = [] := by
  cases path with
  | nil => rfl
  | cons part path =>
    cases part with
    | label l => cases hl
    | pointer => cases hp

theorem pointers_of_getLast? {path : Path} (h : path.getLast? = some .pointer) :
    0 < path.pointers := by
  obtain ⟨front, rfl⟩ := List.getLast?_eq_some_iff.mp h
  rw [pointers_append]
  exact Nat.succ_pos _

theorem join_front {a b : List Bytes} (hne : ∀ l ∈ a ++ b, l ≠ [])
    (h : Text.join dot a = Text.join dot (a ++ b)) : b = [] := by
  by_contra hb
  by_cases ha : a = []
  · subst ha
    exact hb ((Text.join_eq_nil dot hne).mp h.symm)
  · rw [Text.join_append dot ha hb] at h
    exact absurd (List.self_eq_append_right.mp h) (List.cons_ne_nil _ _)

/-- **The limit.** A name with at most ten pointers is read whole exactly if it has nine, or nothing
stands behind its tenth. -/
theorem parseDNSName_limit_iff (packet : Bytes) (off : Nat) (path : Path) (stop : Nat)
    (h : NameAt packet off path stop) (hlimit : path.pointers ≤ 10) :
    parseDNSName packet off = .ok (Text.join dot path.labels, stop) ↔
      (path.pointers = 10 → path.getLast? = some .pointer) := by
  obtain ⟨z, hwalk, -⟩ := h.zero
  have hne := labels_ne_nil hwalk
  obtain ⟨read, rest, rfl, hparse, hall, hlast⟩ := exists_read_of_nameAt h
  rw [pointers_append] at hlimit ⊢
  rw [labels_append] at hne ⊢
  constructor
  · intro hwhole hten
    have htext : Text.join dot read.labels = Text.join dot (read.labels ++ Path.labels rest) := by
      rw [hparse] at hwhole
      simpa using hwhole
    have hlabels := join_front hne htext
    have hrest : rest = [] := by
      by_contra hrest
      have hread : read.pointers = 10 := hall hrest
      exact hrest (eq_nil_of_labels (by omega) hlabels)
    subst hrest
    obtain ⟨front, rfl⟩ := hlast hten
    simp
  · intro hten
    by_cases hrest : rest = []
    · rw [hparse, hrest, Path.labels, List.append_nil]
    · have hread : read.pointers = 10 := hall hrest
      have hend := hten (by omega)
      rw [List.getLast?_append_of_ne_nil _ hrest] at hend
      have := pointers_of_getLast? hend
      omega

/-- Ten pointers in a row, each to the next one, and then the label `a`. -/
def pointerChain : Bytes :=
  [0xC0, 2, 0xC0, 4, 0xC0, 6, 0xC0, 8, 0xC0, 10, 0xC0, 12, 0xC0, 14, 0xC0, 16, 0xC0, 18, 0xC0, 20,
    1, 0x61, 0]

theorem pointerChain_walk :
    NameWalk pointerChain 2 (List.replicate 9 .pointer ++ [.label [0x61]]) 22 := by
  have hpointer : ∀ off (low : UInt8), pointerChain[off]? = some 0xC0 →
      pointerChain[off + 1]? = some low → PartAt pointerChain off .pointer low.toNat := by
    intro off low h h'
    simpa using PartAt.pointer h (by decide) h'
  have hlabel : PartAt pointerChain 20 (.label [0x61]) 22 :=
    @PartAt.label _ _ 1 rfl (by decide) (by decide) (by decide)
  exact .cons (hpointer 2 4 rfl rfl) (.cons (hpointer 4 6 rfl rfl) (.cons (hpointer 6 8 rfl rfl)
    (.cons (hpointer 8 10 rfl rfl) (.cons (hpointer 10 12 rfl rfl) (.cons (hpointer 12 14 rfl rfl)
      (.cons (hpointer 14 16 rfl rfl) (.cons (hpointer 16 18 rfl rfl)
        (.cons (hpointer 18 20 rfl rfl) (.cons hlabel (.nil _))))))))))

theorem pointerChain_nine : parseDNSName pointerChain 2 = .ok ([0x61], 4) :=
  (parseDNSName_limit_iff pointerChain 2 _ 4 ⟨⟨22, pointerChain_walk, rfl⟩, rfl⟩ (by decide)).mpr
    (by decide)

/-- The tenth jump is the last thing that the loop does. -/
theorem pointerChain_ten :
    ¬ ∀ (packet : Bytes) (off : Nat) (path : Path) (stop : Nat), NameAt packet off path stop →
      (∀ l ∈ path.labels, l.length ≤ 63) → path.pointers ≤ 10 →
      parseDNSName packet off = .ok (Text.join dot path.labels, stop) := by
  intro h
  have hfirst : PartAt pointerChain 0 .pointer 2 := @PartAt.pointer _ _ 0xC0 2 rfl (by decide) rfl
  have hwhole := h pointerChain 0 _ 2 ⟨⟨22, .cons hfirst pointerChain_walk, rfl⟩, rfl⟩
    (by decide) (by decide)
  have hread : parseDNSName pointerChain 0 = .ok ([], 2) := by decide +kernel
  rw [hread] at hwhole
  cases hwhole

end Dns
