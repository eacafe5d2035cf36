import ComputerNetworks.Dns.Query

/-!
# Queries are read back

The name in the packet that `createDNSQuery` builds is read by `parseDNSName` as the name that was
asked for.
-/

open Lib Lib.Bytes

namespace Dns

/-- Labels that a query can carry. -/
def Labels (labels : List Bytes) : Prop :=
  ∀ l ∈ labels, 1 ≤ l.length ∧ l.length ≤ 63 ∧ dot ∉ l

theorem Labels.ne_nil {labels : List Bytes} (h : Labels labels) : ∀ l ∈ labels, l ≠ [] :=
  fun l hl => List.ne_nil_of_length_pos (h l hl).1

/-! ## The name of a query -/

theorem getlines_labels {labels : List Bytes} (hlabels : Labels labels) (hne : labels ≠ [])
    {domain : Bytes}
    (hdomain : domain = Text.join dot labels ∨ domain = Text.join dot labels ++ [dot]) :
    Text.getlines dot domain = labels := by
  rcases hdomain with rfl | rfl
  · exact Text.getlines_join dot fun l hl => ⟨hlabels.ne_nil l hl, (hlabels l hl).2.2⟩
  · rw [Text.join_append_delim dot hne]
    exact Text.getlines_flatMap dot fun l hl => (hlabels l hl).2.2

theorem createDNSQuery_labels {labels : List Bytes} (hlabels : Labels labels) (hne : labels ≠ [])
    {domain : Bytes}
    (hdomain : domain = Text.join dot labels ∨ domain = Text.join dot labels ++ [dot])
    (id : UInt16) (type : DNSRecordType) :
    createDNSQuery id domain type = .ok (queryFor id labels type) := by
  have hlines := getlines_labels hlabels hne hdomain
  rcases createDNSQuery_spec id domain type with ⟨-, hok⟩ | ⟨⟨l, hl, hlong⟩, -⟩
  · rw [hok, hlines]
  · rw [hlines] at hl
    exact absurd (hlabels l hl).2.1 (not_le.mpr hlong)

theorem partAt_label (before l : Bytes) {after : Bytes} (hpos : 1 ≤ l.length) (hlen : l.length ≤ 63)
    (hafter : after ≠ []) :
    PartAt (before ++ (UInt8.ofNat l.length :: l ++ after)) before.length (.label l)
      (before.length + (l.length + 1)) := by
  have hn : (UInt8.ofNat l.length).toNat = l.length := by
    rw [UInt8.toNat_ofNat', Nat.mod_eq_of_lt (by omega)]
  have hsize : 0 < after.length := List.length_pos_iff.mpr hafter
  have hlabel : slice (before ++ (UInt8.ofNat l.length :: l ++ after)) (before.length + 1)
      (UInt8.ofNat l.length).toNat = l := by
    rw [hn, slice, ← List.drop_drop, List.drop_left, List.cons_append, List.drop_one, List.tail_cons,
      List.take_left]
  have hpart := @PartAt.label (before ++ (UInt8.ofNat l.length :: l ++ after)) before.length
    (UInt8.ofNat l.length) (by simp) (by omega) (by omega)
    (by simp only [List.length_append, List.length_cons]; omega)
  rw [hlabel, hn] at hpart
  exact hpart

theorem walk_wireLabels {labels : List Bytes} (hlabels : Labels labels) {after : Bytes}
    (hafter : after ≠ []) : ∀ before : Bytes,
      NameWalk (before ++ (wireLabels labels ++ after)) before.length (labels.map .label)
        (before.length + (wireLabels labels).length) := by
  induction labels with
  | nil => exact fun before => .nil _
  | cons l labels ih =>
    intro before
    obtain ⟨hpos, hlen, -⟩ := hlabels l (by simp)
    have ih := ih (fun l hl => hlabels l (List.mem_cons_of_mem _ hl))
      (before ++ (UInt8.ofNat l.length :: l))
    have hsplit : before ++ (wireLabels (l :: labels) ++ after) =
        before ++ (UInt8.ofNat l.length :: l ++ (wireLabels labels ++ after)) := by
      rw [wireLabels, List.flatMap_cons, List.append_assoc]
      rfl
    have hfront : (before ++ (UInt8.ofNat l.length :: l)).length = before.length + (l.length + 1) := by
      simp
    have hend : before.length + (wireLabels (l :: labels)).length =
        before.length + (l.length + 1) + (wireLabels labels).length := by
      rw [wireLabels, List.flatMap_cons, List.length_append, List.length_cons]
      simp only [wireLabels]
      omega
    rw [hfront, List.append_assoc] at ih
    rw [hsplit, hend]
    exact .cons (partAt_label before l hpos hlen (by simp [hafter])) ih

theorem labels_map_label (labels : List Bytes) :
    Path.labels (labels.map .label) = labels ∧ Path.pointers (labels.map .label) = 0 := by
  induction labels with
  | nil => exact ⟨rfl, rfl⟩
  | cons l labels ih => exact ⟨congrArg (l :: ·) ih.1, ih.2⟩

theorem parseDNSName_wireLabels {labels : List Bytes} (hlabels : Labels labels)
    (before after : Bytes) :
    parseDNSName (before ++ (wireLabels labels ++ (0 :: after))) before.length =
      .ok (Text.join dot labels, before.length + (wireLabels labels).length + 1) := by
  obtain ⟨hl, hp⟩ := labels_map_label labels
  have hwalk := walk_wireLabels hlabels (List.cons_ne_nil 0 after) before
  have hname : NameAt (before ++ (wireLabels labels ++ (0 :: after))) before.length
      (labels.map .label) (before.length + (wireLabels labels).length + 1) := by
    refine ⟨⟨_, hwalk, ?_⟩, (endOf_plain hwalk hp).symm⟩
    rw [List.getElem?_append_right (by omega), List.getElem?_append_right (by omega)]
    simp
  obtain ⟨name, hparse, hall⟩ := parseDNSName_of_nameAt hname
  rw [hparse, hall (by rw [hp]; decide), hl]

/-! ## The theorem -/

/-- **Round trip.** A query for a list of labels has the fields that were asked for, and the decoder
reads the labels back, up to the type and the class. -/
theorem query_round_trip (id : UInt16) (type : DNSRecordType) (labels : List Bytes)
    (hne : labels ≠ []) (hlabels : ∀ l ∈ labels, 1 ≤ l.length ∧ l.length ≤ 63 ∧ dot ∉ l)
    (domain : Bytes)
    (hdomain : domain = Text.join dot labels ∨ domain = Text.join dot labels ++ [dot]) :
    ∃ packet, createDNSQuery id domain type = .ok packet ∧
      read16 packet = id ∧ read16 (packet.drop 2) = 0 ∧ read16 (packet.drop 4) = 1 ∧
      read16 (packet.drop 6) = 0 ∧ read16 (packet.drop 8) = 0 ∧ read16 (packet.drop 10) = 0 ∧
      ∃ stop, parseDNSName packet 12 = .ok (Text.join dot labels, stop) ∧
        stop + 4 = packet.length ∧ packet.drop stop = be16 type.value ++ be16 DNSClass.IN.value := by
  refine ⟨_, createDNSQuery_labels hlabels hne hdomain id type, ?_⟩
  have hheader : (queryHeader id).length = 12 := rfl
  have htail : (be16 type.value ++ be16 DNSClass.IN.value).length = 4 := rfl
  have hsplit : queryFor id labels type = queryHeader id ++
      (wireLabels labels ++ (0 :: (be16 type.value ++ be16 DNSClass.IN.value))) := by
    simp [queryFor]
  have hparse := parseDNSName_wireLabels hlabels (queryHeader id)
    (be16 type.value ++ be16 DNSClass.IN.value)
  rw [hheader] at hparse
  rw [hsplit]
  refine ⟨?_, rfl, rfl, rfl, rfl, rfl, _, hparse, ?_, ?_⟩
  · simp only [queryHeader, List.append_assoc, read16_be16]
  · simp only [List.length_append, List.length_cons, hheader, htail]
    omega
  · have hfront : 12 + (wireLabels labels).length + 1 =
        (queryHeader id ++ wireLabels labels ++ [0]).length := by
      simp only [List.length_append, List.length_singleton, hheader]
    rw [hfront]
    simp

theorem query_round_trip_a_b : ∃ packet,
    createDNSQuery 7 [0x61, dot, 0x62, dot] .A = .ok packet ∧ read16 packet = 7 ∧
      read16 (packet.drop 2) = 0 ∧ read16 (packet.drop 4) = 1 ∧ read16 (packet.drop 6) = 0 ∧
      read16 (packet.drop 8) = 0 ∧ read16 (packet.drop 10) = 0 ∧
      ∃ stop, parseDNSName packet 12 = .ok ([0x61, dot, 0x62], stop) ∧ stop + 4 = packet.length ∧
        packet.drop stop = be16 DNSRecordType.A.value ++ be16 DNSClass.IN.value :=
  query_round_trip 7 .A [[0x61], [0x62]] (by decide) (by decide) [0x61, dot, 0x62, dot]
    (Or.inr rfl)

end Dns
