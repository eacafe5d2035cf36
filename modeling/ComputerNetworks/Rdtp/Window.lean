import ComputerNetworks.Rdtp.Transfer

/-! # What the window of the sender goes through -/

open Lib

namespace Rdtp

variable {Addr : Type} (cfg : Config Addr)

/-- No sequence number is used twice. -/
def Config.Fits : Prop := cfg.segmentCount ≤ 2 ^ 32 - 1

/-! ## Segments -/

theorem mss_pos : 0 < cfg.opt.mss.toNat := cfg.opt.mss_pos

theorem segment_length_le (k : Nat) : (cfg.segment k).length ≤ 65535 := by
  have := cfg.opt.mss_le
  rw [Config.segment, Chunks.chunk_length]
  omega

theorem prefixOf_succ (n : Nat) : cfg.prefixOf (n + 1) = cfg.prefixOf n ++ cfg.segment n :=
  Chunks.joined_succ cfg.file n

theorem prefixOf_all : cfg.prefixOf cfg.segmentCount = cfg.file :=
  Chunks.joined_count (mss_pos cfg) cfg.file

theorem parse_entry (k : Nat) :
    parsePacket (cfg.entry k).bytes = some ⟨.data, UInt32.ofNat k, cfg.segment k⟩ :=
  parse_build _ _ _ _ (length_ofNat _ (segment_length_le cfg k))

theorem entries_self (a : Nat) : cfg.entries a a = [] := by simp [Config.entries]

theorem entries_cons {a b : Nat} (h : a < b) :
    cfg.entries a b = cfg.entry a :: cfg.entries (a + 1) b := by
  obtain ⟨d, rfl⟩ : ∃ d, b = a + d + 1 := ⟨b - a - 1, by omega⟩
  simp only [Config.entries, show a + d + 1 - a = d + 1 by omega,
    show a + d + 1 - (a + 1) = d by omega, List.range'_succ, List.map_cons]

theorem entries_append {a b c : Nat} (hab : a ≤ b) (hbc : b ≤ c) :
    cfg.entries a b ++ cfg.entries b c = cfg.entries a c := by
  obtain ⟨d, rfl⟩ := Nat.exists_eq_add_of_le hab
  obtain ⟨e, rfl⟩ := Nat.exists_eq_add_of_le hbc
  simp only [Config.entries, ← List.map_append, show a + d - a = d by omega,
    show a + d + e - (a + d) = e by omega, show a + d + e - a = d + e by omega]
  congr 1
  simp

@[simp] theorem entries_length (a b : Nat) : (cfg.entries a b).length = b - a := by
  simp [Config.entries]

theorem mem_entries {a b : Nat} {p : InFlight} :
    p ∈ cfg.entries a b ↔ ∃ k, a ≤ k ∧ k < b ∧ p = cfg.entry k := by
  simp only [Config.entries, List.mem_map, List.mem_range'_1]
  constructor
  · rintro ⟨k, ⟨h1, h2⟩, rfl⟩
    exact ⟨k, h1, by omega, rfl⟩
  · rintro ⟨k, h1, h2, rfl⟩
    exact ⟨k, ⟨h1, by omega⟩, rfl⟩

/-! ## Filling -/

/-- The counter, the file position and `eof` agree. -/
structure Sender.Reads (s : Sender) : Prop where
  count : s.nextSeq.toNat ≤ cfg.segmentCount
  unread : s.unread = cfg.file.drop (s.nextSeq.toNat * cfg.opt.mss.toNat)
  eof : s.eof = true → s.nextSeq.toNat = cfg.segmentCount

/-- What `fill_window` does between `s` and `t`. -/
structure Filled (s t : Sender) : Prop where
  phase : t.phase = s.phase
  base : t.base = s.base
  grows : s.nextSeq.toNat ≤ t.nextSeq.toNat
  window : t.window = s.window ++ cfg.entries s.nextSeq.toNat t.nextSeq.toNat
  full : t.eof = true ∨ cfg.opt.window.toNat ≤ t.window.length
  bound : s.window.length ≤ cfg.opt.window.toNat → t.window.length ≤ cfg.opt.window.toNat

theorem toNat_succ {n : UInt32} {k : Nat} (hk : n.toNat < k) (hfit : k ≤ 2 ^ 32 - 1) :
    (n + 1).toNat = n.toNat + 1 := by
  rw [UInt32.toNat_add]
  have : (1 : UInt32).toNat = 1 := rfl
  omega

variable {cfg}

theorem Sender.Reads.chunk {s : Sender} (h : s.Reads cfg) :
    nextChunk cfg.opt s = cfg.segment s.nextSeq.toNat := by
  rw [nextChunk, h.unread]; rfl

theorem Sender.Reads.chunk_nil_iff {s : Sender} (h : s.Reads cfg) :
    nextChunk cfg.opt s = [] ↔ s.nextSeq.toNat = cfg.segmentCount := by
  rw [h.chunk, Config.segment, Chunks.chunk_eq_nil_iff (mss_pos cfg)]
  have := h.count
  unfold Config.segmentCount at *
  omega

theorem Sender.Reads.push {s : Sender} (h : s.Reads cfg) (hfit : cfg.Fits)
    (hlt : s.nextSeq.toNat < cfg.segmentCount) (heof : s.eof = false) (payload : Bytes) :
    (pushChunk cfg.opt s payload).Reads cfg := by
  have hsucc := toNat_succ hlt hfit
  refine ⟨?_, ?_, ?_⟩
  · simp only [pushChunk, hsucc]; omega
  · simp only [pushChunk, hsucc, h.unread, List.drop_drop, Nat.succ_mul]
  · simp [pushChunk, heof]

theorem fillWindow_spec (hfit : cfg.Fits) (s : Sender) (sent : List Bytes) (h : s.Reads cfg) :
    (fillWindow cfg.opt s sent).1.Reads cfg ∧ Filled cfg s (fillWindow cfg.opt s sent).1 ∧
      (fillWindow cfg.opt s sent).2 = sent ++
        (cfg.entries s.nextSeq.toNat
          (fillWindow cfg.opt s sent).1.nextSeq.toNat).map (·.bytes) := by
  induction s, sent using fillWindow.induct cfg.opt with
  | case1 s sent hc hnil =>
    have hend := h.chunk_nil_iff.mp hnil
    rw [fillWindow, if_pos hc, if_pos hnil]
    exact ⟨⟨h.count, h.unread, fun _ => hend⟩,
      ⟨rfl, rfl, le_refl _, by simp [entries_self], Or.inl rfl, id⟩, by simp [entries_self]⟩
  | case2 s sent hc hne ih =>
    have hlt : s.nextSeq.toNat < cfg.segmentCount :=
      lt_of_le_of_ne h.count fun he => hne (h.chunk_nil_iff.mpr he)
    have hentry : dataInFlight s.nextSeq (nextChunk cfg.opt s) = cfg.entry s.nextSeq.toNat := by
      rw [Config.entry, UInt32.ofNat_toNat, ← h.chunk]
    have hsucc : (pushChunk cfg.opt s (nextChunk cfg.opt s)).nextSeq.toNat = s.nextSeq.toNat + 1 :=
      toNat_succ hlt hfit
    obtain ⟨hreads, hfill, hsent⟩ := ih (h.push hfit hlt hc.1 _)
    rw [fillWindow, if_pos hc, if_neg hne]
    have hgrow := hfill.grows
    rw [hsucc] at hgrow
    have hcons := entries_cons cfg (Nat.lt_of_succ_le hgrow)
    refine ⟨hreads, ⟨hfill.phase, hfill.base, by omega, ?_, hfill.full, fun _ => ?_⟩, ?_⟩
    · rw [hfill.window, hsucc, hcons, pushChunk, hentry, List.append_assoc, List.singleton_append]
    · apply hfill.bound
      simp only [pushChunk, List.length_append, List.length_singleton]
      omega
    · rw [hsent, hsucc, hcons, hentry, List.append_assoc, List.singleton_append, List.map_cons]
  | case3 s sent hc =>
    rw [fillWindow, if_neg hc]
    refine ⟨h, ⟨rfl, rfl, le_refl _, by simp [entries_self], ?_, id⟩, by simp [entries_self]⟩
    by_cases heof : s.eof = true
    · exact Or.inl heof
    · right
      simp only [heof, true_and, not_lt] at hc
      simpa using hc

/-! ## Acknowledging -/

theorem popAcked_append (ackno : UInt32) (xs ys : List InFlight) (base : UInt32)
    (hx : ∀ p ∈ xs, p.seq ≤ ackno) (hy : ∀ p ∈ ys.head?, ¬ p.seq ≤ ackno) :
    popAcked ackno (xs ++ ys) base = (ys, if xs = [] then base else ackno + 1) := by
  induction xs generalizing base with
  | nil =>
    match ys, hy with
    | [], _ => rfl
    | p :: ys, hy => simp [popAcked, hy p (by simp)]
  | cons p xs ih =>
    rw [List.cons_append, popAcked, if_pos (hx p List.mem_cons_self),
      ih _ fun q hq => hx q (List.mem_cons_of_mem _ hq)]
    simp

theorem popAcked_subset (ackno : UInt32) (window : List InFlight) (base : UInt32) :
    ∀ p ∈ (popAcked ackno window base).1, p ∈ window := by
  induction window generalizing base with
  | nil => simp [popAcked]
  | cons q window ih =>
    intro p hp
    rw [popAcked] at hp
    split at hp
    · exact List.mem_cons_of_mem _ (ih _ p hp)
    · exact hp

theorem entry_seq_toNat (hfit : cfg.Fits) {k : Nat} (hk : k < cfg.segmentCount) :
    (cfg.entry k).seq.toNat = k := by
  have : cfg.segmentCount ≤ 2 ^ 32 - 1 := hfit
  rw [Config.entry, dataInFlight, UInt32.toNat_ofNat', Nat.mod_eq_of_lt (by omega)]

theorem popAcked_entries (hfit : cfg.Fits) {b n : Nat} (a base : UInt32) (hb : b ≤ a.toNat)
    (ha : a.toNat < n) (hn : n ≤ cfg.segmentCount) :
    popAcked a (cfg.entries b n) base = (cfg.entries (a.toNat + 1) n, a + 1) := by
  rw [← entries_append cfg (show b ≤ a.toNat + 1 by omega) ha, popAcked_append]
  · rw [if_neg]
    rw [entries_cons cfg (by omega)]
    simp
  · intro p hp
    obtain ⟨k, -, hk, rfl⟩ := (mem_entries cfg).mp hp
    rw [UInt32.le_iff_toNat_le, entry_seq_toNat hfit (by omega)]
    omega
  · intro p hp
    obtain ⟨k, hk, hkn, rfl⟩ := (mem_entries cfg).mp (List.mem_of_mem_head? hp)
    rw [UInt32.le_iff_toNat_le, entry_seq_toNat hfit (by omega)]
    omega

end Rdtp
