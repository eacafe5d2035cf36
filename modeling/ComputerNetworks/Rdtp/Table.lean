import ComputerNetworks.Lib.Machine
import ComputerNetworks.Rdtp.Checksum

/-!
# The table of `crc32`

The table is a static variable that the first call fills. Every call gives the CRC-32 that is computed a
bit at a time.
-/

open Lib Lib.Bytes Lib.Crc

namespace Rdtp

/-- The reflected CRC-32, a bit at a time. -/
def crc32Definition (data : Bytes) : UInt32 :=
  .ofBitVec (register poly 0xFFFFFFFF (data.map (·.toBitVec)) ^^^ 0xFFFFFFFF)

/-! ## Static variables -/

/-- `table` and `inited`. -/
structure Statics where
  table : List UInt32
  inited : Bool

/-- As the program starts. -/
def Statics.zero : Statics := { table := List.replicate 256 0, inited := false }

/-- The loop that fills the table. -/
def fill (table : List UInt32) : List UInt32 :=
  (List.range 256).foldl (fun table i => table.set i (tableEntry (UInt32.ofNat i))) table

def crcByteFrom (table : List UInt32) (c : UInt32) (b : UInt8) : UInt32 :=
  table.getD ((c ^^^ b.toUInt32) &&& 0xFF).toNat 0 ^^^ (c >>> 8)

/-- The statics behind the check of `inited`. -/
def Statics.entered (s : Statics) : Statics :=
  if s.inited then s else { table := fill s.table, inited := true }

/-- One call of `crc32`, with the static variables that it finds and leaves. -/
def crc32Call (s : Statics) (data : Bytes) : Statics × UInt32 :=
  (s.entered, data.foldl (crcByteFrom s.entered.table) 0xFFFFFFFF ^^^ 0xFFFFFFFF)

def checksums : Machine Statics Bytes UInt32 :=
  ⟨fun s data => ((crc32Call s data).1, [(crc32Call s data).2])⟩

/-! ## What a call finds -/

theorem foldl_set_range {α : Type*} (f : Nat → α) (l : List α) (n : Nat) (h : n ≤ l.length) :
    (List.range n).foldl (fun l i => l.set i (f i)) l = (List.range n).map f ++ l.drop n := by
  induction n with
  | zero => rfl
  | succ n ih =>
    have hset : (l.drop n).set 0 (f n) = f n :: l.drop (n + 1) := by
      rw [List.drop_eq_getElem_cons h]
      rfl
    rw [List.range_succ, List.foldl_append, ih (Nat.le_of_succ_le h), List.foldl_cons, List.foldl_nil,
      List.map_append, List.append_assoc, List.set_append_right _ _ (by simp)]
    simp [hset]

theorem fill_eq (s : List UInt32) (h : s.length = 256) : fill s = table := by
  rw [fill, foldl_set_range _ s 256 h.ge, List.drop_eq_nil_of_le h.le, List.append_nil]
  rfl

/-- The table is as the first call leaves it, or has room for it. -/
structure Ready (s : Statics) : Prop where
  length : s.table.length = 256
  filled : s.inited = true → s.table = table

theorem length_table : table.length = 256 := by rw [table, List.length_map, List.length_range]

theorem ready_zero : Ready .zero := ⟨List.length_replicate, fun h => Bool.noConfusion h⟩

theorem entered_table {s : Statics} (h : Ready s) : s.entered.table = table := by
  unfold Statics.entered
  split
  · rename_i hinited
    exact h.filled hinited
  · dsimp only
    rw [fill_eq s.table h.length]

theorem ready_entered {s : Statics} (h : Ready s) : Ready s.entered where
  length := by rw [entered_table h, length_table]
  filled _ := entered_table h

theorem crc32Call_eq {s : Statics} (h : Ready s) (data : Bytes) : (crc32Call s data).2 = crc32 data := by
  have hbyte : crcByteFrom table = crcByte := rfl
  rw [crc32Call, entered_table h, hbyte, crc32]

theorem ready_run (calls : List Bytes) : Ready (checksums.run .zero calls).1 :=
  checksums.run_invariant (I := Ready) (fun _ _ h => ready_entered h) ready_zero calls

theorem crc32_eq_definition (data : Bytes) : crc32 data = crc32Definition data := by
  apply UInt32.toBitVec_inj.mp
  rw [crc32_toBitVec]
  rfl

/-- **The checksum.** Whatever was computed before it, every call of `crc32` gives the CRC-32 of its
bytes. So does the function that the packets are modelled with. -/
theorem crc32_defined (before : List Bytes) (data : Bytes) :
    (crc32Call (checksums.run .zero before).1 data).2 = crc32Definition data ∧
      crc32 data = crc32Definition data := by
  have hvalue := crc32Call_eq (ready_run before) data
  exact ⟨hvalue.trans (crc32_eq_definition data), crc32_eq_definition data⟩

end Rdtp
