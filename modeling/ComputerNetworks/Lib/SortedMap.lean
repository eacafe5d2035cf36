import Mathlib.Data.List.Lex
import Mathlib.Order.Lattice

/-!
# Sorted maps

A map with an order on its keys, as the list of its entries in that order: two maps with the same
entries are the same.
-/

universe u v

namespace Lib

structure SortedMap (K : Type u) (V : Type v) [LinearOrder K] where
  entries : List (K × V)
  sorted : entries.Pairwise fun a b => a.1 < b.1
  deriving DecidableEq

namespace SortedMap

variable {K : Type u} {V : Type v} [LinearOrder K]

@[ext] theorem ext {m n : SortedMap K V} (h : m.entries = n.entries) : m = n := by
  cases m; cases n; cases h; rfl

def empty : SortedMap K V := ⟨[], .nil⟩

def find? (m : SortedMap K V) (k : K) : Option V :=
  (m.entries.find? fun e => e.1 = k).map (·.2)

/-! ## Insertion -/

def insertEntry (k : K) (v : V) : List (K × V) → List (K × V)
  | [] => [(k, v)]
  | e :: rest =>
    if k < e.1 then (k, v) :: e :: rest
    else if k = e.1 then (k, v) :: rest
    else e :: insertEntry k v rest

theorem mem_insertEntry {k : K} {v : V} {a : K × V} {l : List (K × V)}
    (h : a ∈ insertEntry k v l) : a = (k, v) ∨ a ∈ l := by
  induction l with
  | nil => exact Or.inl (List.mem_singleton.mp h)
  | cons e rest ih =>
    rw [insertEntry] at h
    split_ifs at h
    · exact List.mem_cons.mp h
    · exact (List.mem_cons.mp h).imp_right (List.mem_cons_of_mem e)
    · rcases List.mem_cons.mp h with rfl | h
      · exact Or.inr List.mem_cons_self
      · exact (ih h).imp_right (List.mem_cons_of_mem e)

theorem insertEntry_sorted (k : K) (v : V) {l : List (K × V)}
    (h : l.Pairwise fun a b => a.1 < b.1) : (insertEntry k v l).Pairwise fun a b => a.1 < b.1 := by
  induction h with
  | nil => exact List.pairwise_singleton _ _
  | @cons e rest he hrest ih =>
    rw [insertEntry]
    split_ifs with hlt heq
    · refine .cons ?_ (.cons he hrest)
      intro a ha
      rcases List.mem_cons.mp ha with rfl | ha
      · exact hlt
      · exact hlt.trans (he a ha)
    · exact .cons (fun a ha => heq ▸ he a ha) hrest
    · refine .cons ?_ ih
      intro a ha
      rcases mem_insertEntry ha with rfl | ha
      · exact lt_of_le_of_ne (not_lt.mp hlt) (Ne.symm heq)
      · exact he a ha

def insert (m : SortedMap K V) (k : K) (v : V) : SortedMap K V :=
  ⟨insertEntry k v m.entries, insertEntry_sorted k v m.sorted⟩

theorem insertEntry_append {k : K} (v : V) {l : List (K × V)} (h : ∀ e ∈ l, e.1 < k) :
    insertEntry k v l = l ++ [(k, v)] := by
  induction l with
  | nil => rfl
  | cons e rest ih =>
    have he := h e List.mem_cons_self
    rw [insertEntry, if_neg he.not_gt, if_neg he.ne', ih fun a ha => h a (List.mem_cons_of_mem e ha)]
    rfl

theorem find?_insertEntry (k : K) (v : V) (l : List (K × V)) (k' : K) :
    (insertEntry k v l).find? (fun e => e.1 = k') =
      if k = k' then some (k, v) else l.find? fun e => e.1 = k' := by
  induction l with
  | nil => by_cases h : k = k' <;> simp [insertEntry, h]
  | cons e rest ih =>
    rw [insertEntry]
    split_ifs <;> grind

theorem find?_insert (m : SortedMap K V) (k : K) (v : V) (k' : K) :
    (m.insert k v).find? k' = if k = k' then some v else m.find? k' := by
  rw [find?, insert, find?_insertEntry]
  split_ifs <;> rfl

theorem mem_insert {m : SortedMap K V} {k : K} {v : V} {a : K × V}
    (h : a ∈ (m.insert k v).entries) : a = (k, v) ∨ a ∈ m.entries := mem_insertEntry h

def insertAll (m : SortedMap K V) (l : List (K × V)) : SortedMap K V :=
  l.foldl (fun m e => m.insert e.1 e.2) m

theorem insertAll_append (m : SortedMap K V) (l l' : List (K × V)) :
    m.insertAll (l ++ l') = (m.insertAll l).insertAll l' := List.foldl_append

/-- **Rebuilding.** The entries of a map, put into an empty one in their order, make it again. -/
theorem insertAll_entries (m : SortedMap K V) : empty.insertAll m.entries = m := by
  -- The part that is put in already, and the part that is still to come.
  have run : ∀ (todo : List (K × V)) (done : SortedMap K V),
      (done.entries ++ todo).Pairwise (fun a b => a.1 < b.1) →
      (done.insertAll todo).entries = done.entries ++ todo := by
    intro todo
    induction todo with
    | nil => intro done _; simp [insertAll]
    | cons e todo ih =>
      intro done hsorted
      have hlast : (done.insert e.1 e.2).entries = done.entries ++ [e] := by
        apply insertEntry_append
        intro a ha
        exact (List.pairwise_append.mp hsorted).2.2 a ha e List.mem_cons_self
      rw [show done.insertAll (e :: todo) = (done.insert e.1 e.2).insertAll todo from rfl, ih]
      · rw [hlast]; simp
      · rw [hlast]; simpa using hsorted
  exact ext (run m.entries empty m.sorted)

/-! ## Erasure -/

def filter (m : SortedMap K V) (p : K → Bool) : SortedMap K V :=
  ⟨m.entries.filter fun e => p e.1, m.sorted.filter _⟩

def erase (m : SortedMap K V) (k : K) : SortedMap K V := m.filter fun x => decide (x ≠ k)

theorem filter_filter (m : SortedMap K V) (p q : K → Bool) :
    (m.filter p).filter q = m.filter fun k => p k && q k := by
  apply ext
  simp only [filter, List.filter_filter, Bool.and_comm]

/-! ## Values -/

theorem find?_eq_some_iff {m : SortedMap K V} {k : K} {v : V} :
    m.find? k = some v ↔ (k, v) ∈ m.entries := by
  obtain ⟨entries, hsorted⟩ := m
  unfold find?
  dsimp only
  induction hsorted with
  | nil => simp
  | @cons e rest hlt _ ih =>
    rw [List.find?_cons, List.mem_cons]
    by_cases he : e.1 = k
    · -- No entry behind it has its key.
      have hnot : (k, v) ∉ rest := fun hmem => (he ▸ hlt _ hmem).false
      simp [he, hnot, Prod.ext_iff, eq_comm]
    · have hne : (k, v) ≠ e := fun heq => he (heq ▸ rfl)
      simpa [he, hne] using ih

theorem exists_entries_eq {m : SortedMap K V} {k : K} {v : V} (h : m.find? k = some v) :
    ∃ front back, m.entries = front ++ (k, v) :: back ∧
      (∀ e ∈ front, e.1 ≠ k) ∧ ∀ e ∈ back, e.1 ≠ k := by
  obtain ⟨front, back, heq⟩ := List.mem_iff_append.mp (find?_eq_some_iff.mp h)
  have hsorted := m.sorted
  rw [heq, List.pairwise_append, List.pairwise_cons] at hsorted
  obtain ⟨-, ⟨hback, -⟩, hfront⟩ := hsorted
  exact ⟨front, back, heq, fun e he => (hfront e he _ List.mem_cons_self).ne,
    fun e he => (hback e he).ne'⟩

def mapValues (f : V → V) (m : SortedMap K V) : SortedMap K V :=
  ⟨m.entries.map fun e => (e.1, f e.2), List.pairwise_map.mpr m.sorted⟩

theorem find?_mapValues (f : V → V) (m : SortedMap K V) (k : K) :
    (m.mapValues f).find? k = (m.find? k).map f := by
  unfold find? mapValues
  rw [List.find?_map, Option.map_map, Option.map_map]
  rfl

end SortedMap

/-! ## Strings as keys -/

instance instLinearOrderUInt8 : LinearOrder UInt8 where
  le_refl := UInt8.le_refl
  le_trans _ _ _ := UInt8.le_trans
  le_antisymm _ _ := UInt8.le_antisymm
  le_total := UInt8.le_total
  lt_iff_le_not_ge a b := by
    simp only [UInt8.lt_iff_toNat_lt, UInt8.le_iff_toNat_le]
    omega
  toDecidableLE := inferInstance
  toDecidableEq := inferInstance
  toDecidableLT := inferInstance

end Lib
