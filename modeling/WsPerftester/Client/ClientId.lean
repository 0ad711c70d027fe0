import WsPerftester.Lib.Bytes

/-! # The id of a mobile client

`generate_client_id` fills 16 bytes from two draws of 64 bits. It takes the bytes of a draw at
distances of 4 bits, so that they overlap and the upper 28 bits of the draw are lost
(`keeps_draws_iff`). -/

namespace WsPerftester

/-- `sizeof(unsigned long)`. -/
def longsize : Nat := 8

/-- `id_length_bytes`. -/
def idLengthBytes : Nat := 16

/-- `static_cast<char>((val >> (4*j)) & 0xFF)`. -/
def idByte (val : BitVec 64) (j : Nat) : BitVec 8 := ((val >>> (4 * j)) &&& 0xFF#64).setWidth 8

/-- The nested loop of `generate_client_id`: `draws k` is what call `k` of `dis(gen)` returns, and
`clientId` what the array holds before. -/
def fillClientId (draws : Nat → BitVec 64) (clientId : List (BitVec 8)) : List (BitVec 8) :=
  -- `i` runs over the multiples of `longsize` below `id_length_bytes`
  (List.range (idLengthBytes / longsize)).foldl
    (fun clientId k =>
      let i := longsize * k
      let val := draws k
      (List.range longsize).foldl (fun clientId j => clientId.set (i + j) (idByte val j)) clientId)
    clientId

/-- The loop fills two blocks of eight bytes. -/
theorem fillClientId_eq (draws : Nat → BitVec 64) (clientId : List (BitVec 8)) :
    fillClientId draws clientId =
      Bytes.fillBlocks 2 longsize (fun k j => idByte (draws k) j) clientId := rfl

/-- The bytes of a draw start at every fourth bit. -/
theorem idByte_eq (val : BitVec 64) (j : Nat) : idByte val j = Bytes.byteAt val (4 * j) :=
  Bytes.setWidth_and_mask _

/-- The bytes of a draw are those of another one when the lower 36 bits are. -/
theorem idBytes_eq_iff (val val' : BitVec 64) :
    (∀ j < longsize, idByte val j = idByte val' j) ↔ val.setWidth 36 = val'.setWidth 36 := by
  simp only [idByte_eq]
  exact Bytes.bytes_eq_iff (s := 4) (n := 8) (by decide) (by decide) (by decide)

/-- Two sequences of draws differ. -/
def Differ (draws draws' : Nat → BitVec 64) : Prop := ∃ k < 2, draws k ≠ draws' k

/-- They differ in the lower 36 bits of a draw. -/
def DifferBelow36 (draws draws' : Nat → BitVec 64) : Prop :=
  ∃ k < 2, (draws k).setWidth 36 ≠ (draws' k).setWidth 36

/-- **When the id keeps the draws apart.** They differ in the lower 36 bits of a draw, or not at
all. -/
theorem keeps_draws_iff (draws draws' : Nat → BitVec 64) {clientId clientId' : List (BitVec 8)}
    (hlength : clientId.length = idLengthBytes) (hlength' : clientId'.length = idLengthBytes) :
    (Differ draws draws' → fillClientId draws clientId ≠ fillClientId draws' clientId') ↔
      (Differ draws draws' → DifferBelow36 draws draws') := by
  have hfilled : fillClientId draws clientId = fillClientId draws' clientId' ↔
      ¬ DifferBelow36 draws draws' := by
    rw [fillClientId_eq, fillClientId_eq, Bytes.fillBlocks_eq_iff hlength hlength']
    simp only [idBytes_eq_iff, DifferBelow36, ne_eq, not_exists, not_and, not_not]
  rw [ne_eq, hfilled, not_not]

/-- Draws that differ in bit 36 only. -/
theorem draws_collide :
    Differ (fun _ => 0#64) (fun _ => 68719476736#64) ∧
      fillClientId (fun _ => 0#64) (List.replicate 16 0#8) =
        fillClientId (fun _ => 68719476736#64) (List.replicate 16 0#8) :=
  ⟨⟨0, by decide, by decide⟩, by decide⟩

/-- `keeps_draws_iff` for draws that differ in bit 35. -/
theorem draws_kept :
    fillClientId (fun _ => 0#64) (List.replicate 16 0#8) ≠
      fillClientId (fun _ => 34359738368#64) (List.replicate 16 0#8) :=
  (keeps_draws_iff _ _ rfl rfl).mpr (fun _ => ⟨0, by decide, by decide⟩) ⟨0, by decide, by decide⟩

end WsPerftester
