import ComputerNetworks.Dns.Resolver
import ComputerNetworks.Lib.Pieces

/-!
# Responses over TCP

`queryTCP` calls `recv` once for the length prefix and once for the response. What `recv` gives out
of a stream depends on how the stream was cut.
-/

open Lib Lib.Bytes Lib.Traced

namespace Dns

theorem recv_eq (len : Nat) (pieces : List Bytes) : recv len pieces = Pieces.recv len pieces := by
  cases pieces <;> rfl

theorem queryTCP_eq_some_iff {net : Network} {server query : Bytes} {tr : List Event}
    {pieces : List Bytes} {response : Bytes} (htcp : net.tcp (.tcp server query :: tr) = some pieces)
    (hsize : 12 ≤ response.length ∧ response.length ≤ 65535)
    (hstream : pieces.flatten = be16 (UInt16.ofNat response.length) ++ response) :
    queryTCP net server query (read16 response) tr =
        (.ok (some response), .tcp server query :: tr) ↔
      (Pieces.recv 2 pieces).1.length = 2 ∧
        (Pieces.recv response.length (Pieces.recv 2 pieces).2).1.length = response.length := by
  have hn : (UInt16.ofNat response.length).toNat = response.length := by
    rw [UInt16.toNat_ofNat', Nat.mod_eq_of_lt (by omega)]
  have hprefix : (be16 (UInt16.ofNat response.length)).length = 2 := rfl
  have hfirst := Pieces.recv_flatten 2 pieces
  rw [hstream] at hfirst
  rw [queryTCP, log_bind, look_bind, htcp]
  dsimp only
  simp only [recv_eq]
  by_cases htwo : (Pieces.recv 2 pieces).1.length = 2
  swap
  · rw [if_pos htwo]
    simp [htwo, pure]
  obtain ⟨hbytes, hrest⟩ := List.append_inj hfirst (by rw [htwo, hprefix])
  have hsecond := Pieces.recv_flatten response.length (Pieces.recv 2 pieces).2
  rw [hrest] at hsecond
  have hlength : (read16 (Pieces.recv 2 pieces).1).toNat = response.length := by
    rw [hbytes, ← List.append_nil (be16 _), read16_be16, hn]
  rw [if_neg (not_not.mpr htwo), hlength]
  by_cases hfull : (Pieces.recv response.length (Pieces.recv 2 pieces).2).1.length = response.length
  swap
  · rw [if_pos hfull]
    simp [hfull, pure]
  obtain ⟨hall, -⟩ := List.append_inj (hsecond.trans (List.append_nil response).symm) hfull
  rw [if_neg (not_not.mpr hfull), hall, if_neg (by rw [headerSize]; omega), if_neg (by simp)]
  simp [htwo, pure]

/-- **Segments.** Of a stream that holds a response behind its length, `queryTCP` returns the
response exactly if the stream was not cut, or cut once, behind the length. -/
theorem queryTCP_segments_iff (net : Network) (server query : Bytes) (id : UInt16)
    (tr : List Event) (response : Bytes) (pieces : List Bytes)
    (hsize : 12 ≤ response.length ∧ response.length ≤ 65535) (hid : read16 response = id)
    (htcp : net.tcp (.tcp server query :: tr) = some pieces) (hpieces : ∀ p ∈ pieces, p ≠ [])
    (hstream : pieces.flatten = be16 (UInt16.ofNat response.length) ++ response) :
    queryTCP net server query id tr = (.ok (some response), .tcp server query :: tr) ↔
      pieces = [be16 (UInt16.ofNat response.length) ++ response] ∨
        pieces = [be16 (UInt16.ofNat response.length), response] := by
  subst hid
  have hprefix : (be16 (UInt16.ofNat response.length)).length = 2 := rfl
  have hne : response ≠ [] := List.ne_nil_of_length_pos (by omega)
  have hcut := Pieces.recv_singleton_iff (List.ne_nil_of_length_pos (by omega)) hne hstream
  rw [queryTCP_eq_some_iff htcp hsize hstream, ← hcut, hprefix]
  refine and_congr_right fun htwo => ?_
  have hfirst := Pieces.recv_flatten 2 pieces
  rw [hstream] at hfirst
  obtain ⟨-, hrest⟩ := List.append_inj hfirst (by rw [htwo, hprefix])
  have hall := Pieces.recv_all_iff (Pieces.recv_ne_nil hpieces) (by rw [hrest]; omega)
  rw [hrest] at hall
  exact hall

/-- A network in which a server answers over TCP, with its response cut as told. -/
def cutAs (pieces : List Bytes) : Network where
  time _ := 0
  udp _ := none
  tcp _ := some pieces

/-- A header with the id 7. -/
def headerOnly : Bytes := [0, 7, 0x80, 0, 0, 0, 0, 0, 0, 0, 0, 0]

theorem queryTCP_two_pieces :
    queryTCP (cutAs [[0, 12], headerOnly]) [] [] 7 [] = (.ok (some headerOnly), [.tcp [] []]) :=
  (queryTCP_segments_iff (cutAs [[0, 12], headerOnly]) [] [] 7 [] headerOnly [[0, 12], headerOnly]
    (by decide) rfl rfl (by decide) rfl).mpr (Or.inr rfl)

/-- The last byte comes in a piece of its own. -/
theorem queryTCP_last_byte :
    ¬ ∀ (net : Network) (server query : Bytes) (id : UInt16) (tr : List Event) (response : Bytes)
      (pieces : List Bytes), 12 ≤ response.length ∧ response.length ≤ 65535 →
      read16 response = id → net.tcp (.tcp server query :: tr) = some pieces →
      (∀ p ∈ pieces, p ≠ []) →
      pieces.flatten = be16 (UInt16.ofNat response.length) ++ response →
      queryTCP net server query id tr = (.ok (some response), .tcp server query :: tr) := by
  intro h
  have hwhole := h (cutAs [[0, 12], headerOnly.take 11, [0]]) [] [] 7 [] headerOnly
    [[0, 12], headerOnly.take 11, [0]] (by decide) rfl rfl (by decide) rfl
  have hfails : (queryTCP (cutAs [[0, 12], headerOnly.take 11, [0]]) [] [] 7 []).1 = .ok none := rfl
  rw [hwhole] at hfails
  cases hfails

end Dns
