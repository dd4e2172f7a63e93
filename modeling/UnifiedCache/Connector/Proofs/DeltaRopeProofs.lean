import UnifiedCache.Connector.DeltaRope
import UnifiedCache.Sparse.Proofs.BlockwiseRopeProofs
import Mathlib.Data.Nat.Log

/-!
# Every loaded key gets the rotation of its own position

A stored key has the rotation of the position that its token had in the chunk. The offset of the chunk is
the distance to the position in the request, and the angles add up.
-/

open Lib
open UnifiedCache.Sparse.BlockwiseRope

namespace UnifiedCache.Connector

variable {η K : Type} [CommRing K]

/-! ## The offset of a block -/

theorem mem_compress {α : Type*} {data : List α} {selectors : List Bool} {i : Nat} {x : α}
    (hx : data[i]? = some x) (hsel : selectors[i]? = some true) : x ∈ compress data selectors := by
  have hzip : (data.zip selectors)[i]? = some (x, true) := by
    rw [List.getElem?_zip_eq_some]
    exact ⟨hx, hsel⟩
  have hmem : (x, true) ∈ (data.zip selectors).filter Prod.snd :=
    List.mem_filter.mpr ⟨List.mem_of_getElem? hzip, rfl⟩
  exact List.mem_map_of_mem hmem

theorem zip_deltaRope (chunksMeta : List (ChunkMetaData η)) :
    (deltaRope chunksMeta).1.zip (deltaRope chunksMeta).2 =
      chunksMeta.flatMap fun c => c.hitsVllmBlkIds.map fun b => (b, c.positionOffset) := by
  induction chunksMeta with
  | nil => rfl
  | cons c chunksMeta ih =>
    have hlen : c.hitsVllmBlkIds.length =
        (List.replicate c.hitsVllmBlkIds.length c.positionOffset).length :=
      List.length_replicate.symm
    have hchunk : c.hitsVllmBlkIds.zip (List.replicate c.hitsVllmBlkIds.length c.positionOffset) =
        c.hitsVllmBlkIds.map fun b => (b, c.positionOffset) := by
      have hzip : (c.hitsVllmBlkIds.map id).zip (c.hitsVllmBlkIds.map fun _ => c.positionOffset) =
        c.hitsVllmBlkIds.map fun b => (b, c.positionOffset) := List.zip_map'
      rw [List.map_id, List.map_const'] at hzip
      exact hzip
    unfold deltaRope at ih ⊢
    dsimp only at ih ⊢
    rw [List.flatMap_cons, List.flatMap_cons, List.zip_append hlen, ih, List.flatMap_cons, hchunk]

theorem exists_deltaRope {chunksMeta : List (ChunkMetaData η)} {c : ChunkMetaData η} {b : VllmBlock}
    (hc : c ∈ chunksMeta) (hb : b ∈ c.hitsVllmBlkIds) :
    ∃ k, ∃ hk : k < (deltaRope chunksMeta).1.length, (deltaRope chunksMeta).1[k] = b ∧
      (deltaRope chunksMeta).2[k]? = some c.positionOffset := by
  have hmem : (b, c.positionOffset) ∈ (deltaRope chunksMeta).1.zip (deltaRope chunksMeta).2 := by
    rw [zip_deltaRope]
    exact List.mem_flatMap.mpr ⟨c, hc, List.mem_map_of_mem hb⟩
  obtain ⟨k, hk⟩ := List.mem_iff_getElem?.mp hmem
  obtain ⟨hid, hoffset⟩ := List.getElem?_zip_eq_some.mp hk
  obtain ⟨hlt, hget⟩ := List.getElem?_eq_some_iff.mp hid
  exact ⟨k, hlt, hget, hoffset⟩

/-! ## The kernel, the loops and the connector -/

section Shift

variable {nextPowerOf2 : Nat → Nat} {shape : CacheShape} {rows : Nat} {cosSinCache kCache : Nat → K}
  {vllmIds positions order : List Nat} {blk : Fin shape.totalBlocks} {p q : Fin rows}
  {s : Fin shape.seqLen} {h : Fin shape.nKvHead} {x : List K}

theorem forward_shift (hnext : ∀ n, n ≤ nextPowerOf2 n)
    (hhalf : shape.headDim / 2 + shape.headDim / 2 = shape.headDim)
    (hangle : Rotary.AngleAddition (shape.headDim / 2) rows (cosTable shape.headDim cosSinCache)
      (sinTable shape.headDim cosSinCache)) (hnodup : vllmIds.Nodup)
    (hperm : order.Perm (List.range (nRow shape vllmIds))) {d : Fin rows}
    (hmem : ((blk : Nat), (d : Nat)) ∈ vllmIds.zip positions) (hq : (q : Nat) = p + d)
    (hx : x.length = shape.headDim)
    (hstored : cacheOf shape kCache (blk, s, h) =
      rotateVec (shape.headDim / 2) (tableOf rows shape.headDim cosSinCache p) x) :
    cacheOf shape (blockWiseRopeForward nextPowerOf2 shape rows cosSinCache vllmIds positions order
        kCache) (blk, s, h) =
      rotateVec (shape.headDim / 2) (tableOf rows shape.headDim cosSinCache q) x := by
  obtain ⟨i, hi⟩ := List.mem_iff_getElem?.mp hmem
  obtain ⟨hid, hposition⟩ := List.getElem?_zip_eq_some.mp hi
  obtain ⟨hlt, hblk⟩ := List.getElem?_eq_some_iff.mp hid
  have hget : positions.getD i 0 = (d : Nat) := by
    rw [List.getD_eq_getElem?_getD, hposition]
    rfl
  rw [cacheOf_forward_listed hnext hhalf hnodup hperm hlt hblk hget, hstored]
  exact rotateVec_rotateVec hhalf hangle hq hx

theorem waitForLayerLoad_shift {requestMeta : List (BlendRequestDispatchMeta η)}
    {r : BlendRequestDispatchMeta η} {c : ChunkMetaData η} {i : Nat}
    (hnext : ∀ n, n ≤ nextPowerOf2 n)
    (hhalf : shape.headDim / 2 + shape.headDim / 2 = shape.headDim)
    (hangle : Rotary.AngleAddition (shape.headDim / 2) rows (cosTable shape.headDim cosSinCache)
      (sinTable shape.headDim cosSinCache)) (hnodup : (bindDeltaRope requestMeta).1.Nodup)
    (hperm : order.Perm (List.range (nRow shape (bindDeltaRope requestMeta).1)))
    (hr : r ∈ requestMeta) (hc : c ∈ r.chunksMeta) (hoffset : 0 ≤ c.positionOffset)
    (hblk : c.vllmBlkIds[i]? = some (blk : Nat)) (hhit : c.storeHits[i]? = some true)
    (hp : ((p : Nat) : Int) = c.cachedStartPosition + i * shape.seqLen + (s : Nat))
    (hq : ((q : Nat) : Int) = c.startTokenDix + i * shape.seqLen + (s : Nat))
    (hx : x.length = shape.headDim)
    (hstored : cacheOf shape kCache (blk, s, h) =
      rotateVec (shape.headDim / 2) (tableOf rows shape.headDim cosSinCache p) x) :
    cacheOf shape (waitForLayerLoad nextPowerOf2 shape rows cosSinCache requestMeta order kCache)
        (blk, s, h) =
      rotateVec (shape.headDim / 2) (tableOf rows shape.headDim cosSinCache q) x := by
  have hchunk : c ∈ requestMeta.flatMap (·.chunksMeta) := List.mem_flatMap.mpr ⟨r, hr, hc⟩
  obtain ⟨k, hk, hid, hposition⟩ := exists_deltaRope hchunk (mem_compress hblk hhit)
  have hne : (bindDeltaRope requestMeta).1 ≠ [] := List.ne_nil_of_length_pos (Nat.zero_lt_of_lt hk)
  have hwait : waitForLayerLoad nextPowerOf2 shape rows cosSinCache requestMeta order kCache =
      blockWiseRopeForward nextPowerOf2 shape rows cosSinCache (bindDeltaRope requestMeta).1
        ((bindDeltaRope requestMeta).2.map Int.toNat) order kCache := if_pos hne
  -- the offset is the distance of the two positions
  have hdistance : c.positionOffset = ((q : Nat) : Int) - (p : Nat) := by
    rw [hp, hq]
    unfold ChunkMetaData.positionOffset
    ring
  obtain ⟨d, hd⟩ : ∃ d : Fin rows, (d : Nat) = q - p :=
    ⟨⟨q - p, Nat.lt_of_le_of_lt (Nat.sub_le _ _) q.isLt⟩, rfl⟩
  have hsum : (q : Nat) = p + d := by omega
  have htoNat : c.positionOffset.toNat = d := by omega
  have hmem : ((blk : Nat), (d : Nat)) ∈
      (bindDeltaRope requestMeta).1.zip ((bindDeltaRope requestMeta).2.map Int.toNat) := by
    apply List.mem_of_getElem? (i := k)
    rw [List.getElem?_zip_eq_some, List.getElem?_map]
    refine ⟨List.getElem?_eq_some_iff.mpr ⟨hk, hid⟩, ?_⟩
    rw [← htoNat]
    exact congrArg (Option.map Int.toNat) hposition
  rw [hwait]
  exact forward_shift hnext hhalf hangle hnodup hperm hmem hsum hx hstored

end Shift

/-- **The rotation of the keys is right.** The kernel, with its programs in any order, leaves what the
loops return, and no other block changes. If the angles of the table add up, a key with the rotation of
one position gets the rotation of that position plus the offset; so every token of a loaded block of a
chunk gets the rotation of its own position in the request. -/
theorem block_wise_rope_exact (nextPowerOf2 : Nat → Nat) (hnext : ∀ n, n ≤ nextPowerOf2 n)
    (shape : CacheShape) (heven : Even shape.headDim) (rows : Nat) (cosSinCache kCache : Nat → K) :
    (∀ vllmIds positions order : List Nat, vllmIds.Nodup → vllmIds.length = positions.length →
      (∀ id ∈ vllmIds, id < shape.totalBlocks) → (∀ p ∈ positions, p < rows) →
      order.Perm (List.range (nRow shape vllmIds)) →
      ropeNaiveTorch (cacheOf shape kCache) vllmIds positions (tableOf rows shape.headDim cosSinCache) =
          some (cacheOf shape (blockWiseRopeForward nextPowerOf2 shape rows cosSinCache vllmIds
            positions order kCache)) ∧
        ∀ (blk : Fin shape.totalBlocks) s h, (blk : Nat) ∉ vllmIds →
          cacheOf shape (blockWiseRopeForward nextPowerOf2 shape rows cosSinCache vllmIds positions
            order kCache) (blk, s, h) = cacheOf shape kCache (blk, s, h)) ∧
    (Rotary.AngleAddition (shape.headDim / 2) rows (cosTable shape.headDim cosSinCache)
        (sinTable shape.headDim cosSinCache) →
      (∀ vllmIds positions order : List Nat, vllmIds.Nodup →
        order.Perm (List.range (nRow shape vllmIds)) →
        ∀ (blk : Fin shape.totalBlocks) (p d q : Fin rows) s h (x : List K),
          ((blk : Nat), (d : Nat)) ∈ vllmIds.zip positions → (q : Nat) = p + d →
          x.length = shape.headDim →
          cacheOf shape kCache (blk, s, h) =
            rotateVec (shape.headDim / 2) (tableOf rows shape.headDim cosSinCache p) x →
          cacheOf shape (blockWiseRopeForward nextPowerOf2 shape rows cosSinCache vllmIds positions
              order kCache) (blk, s, h) =
            rotateVec (shape.headDim / 2) (tableOf rows shape.headDim cosSinCache q) x) ∧
      ∀ (requestMeta : List (BlendRequestDispatchMeta η)) (order : List Nat),
        (bindDeltaRope requestMeta).1.Nodup →
        order.Perm (List.range (nRow shape (bindDeltaRope requestMeta).1)) →
        ∀ r ∈ requestMeta, ∀ c ∈ r.chunksMeta, 0 ≤ c.positionOffset →
        ∀ (i : Nat) (blk : Fin shape.totalBlocks) (p q : Fin rows) (s : Fin shape.seqLen) h
          (x : List K), c.vllmBlkIds[i]? = some (blk : Nat) → c.storeHits[i]? = some true →
          ((p : Nat) : Int) = c.cachedStartPosition + i * shape.seqLen + (s : Nat) →
          ((q : Nat) : Int) = c.startTokenDix + i * shape.seqLen + (s : Nat) →
          x.length = shape.headDim →
          cacheOf shape kCache (blk, s, h) =
            rotateVec (shape.headDim / 2) (tableOf rows shape.headDim cosSinCache p) x →
          cacheOf shape (waitForLayerLoad nextPowerOf2 shape rows cosSinCache requestMeta order kCache)
              (blk, s, h) =
            rotateVec (shape.headDim / 2) (tableOf rows shape.headDim cosSinCache q) x) := by
  have hhalf : shape.headDim / 2 + shape.headDim / 2 = shape.headDim := by
    obtain ⟨half, hhalf⟩ := heven
    omega
  refine ⟨?_, fun hangle => ⟨?_, ?_⟩⟩
  · intro vllmIds positions order hnodup hlen hids hpos hperm
    refine ⟨ropeNaiveTorch_forward hnext hhalf hnodup hlen hids hpos hperm, ?_⟩
    intro blk s h hblk
    exact cacheOf_forward_unlisted hnext hhalf hperm hblk s h
  · intro vllmIds positions order hnodup hperm blk p d q s h x hmem hq hx hstored
    exact forward_shift hnext hhalf hangle hnodup hperm hmem hq hx hstored
  · intro requestMeta order hnodup hperm r hr c hc hoffset i blk p q s h x hblk hhit hp hq hx hstored
    exact waitForLayerLoad_shift hnext hhalf hangle hnodup hperm hr hc hoffset hblk hhit hp hq hx hstored

/-- A table of the turns by nothing and by a quarter. -/
def quarterTable (a : Nat) : Int := if a = 0 ∨ a = 3 then 1 else 0

/-- A chunk of one block that moves by one token. -/
def movedChunk : ChunkMetaData Nat where
  startTokenDix := 1
  chunkTokensLen := 1
  startBlkIdx := 1
  chunkBlksLen := 1
  cachedStartPosition := 0
  vllmBlkIds := [1]
  chunkBlksHash := [9]
  storeHits := [true]

theorem quarterTable_angleAddition :
    Rotary.AngleAddition 1 2 (cosTable 2 quarterTable) (sinTable 2 quarterTable) where
  cos_add p d hlt j hj := by
    have hcases : (p = 0 ∧ d = 0) ∨ (p = 0 ∧ d = 1) ∨ (p = 1 ∧ d = 0) := by omega
    obtain rfl := Nat.lt_one_iff.mp hj
    rcases hcases with ⟨rfl, rfl⟩ | ⟨rfl, rfl⟩ | ⟨rfl, rfl⟩ <;> rfl
  sin_add p d hlt j hj := by
    have hcases : (p = 0 ∧ d = 0) ∨ (p = 0 ∧ d = 1) ∨ (p = 1 ∧ d = 0) := by omega
    obtain rfl := Nat.lt_one_iff.mp hj
    rcases hcases with ⟨rfl, rfl⟩ | ⟨rfl, rfl⟩ | ⟨rfl, rfl⟩ <;> rfl

theorem block_wise_rope_exact_quarter :
    ropeNaiveTorch (cacheOf ⟨2, 1, 1, 2⟩ fun a => (a : Int)) [1] [1] (tableOf 2 2 quarterTable) =
        some (cacheOf ⟨2, 1, 1, 2⟩ (blockWiseRopeForward (fun n => 2 ^ Nat.clog 2 n) ⟨2, 1, 1, 2⟩ 2
          quarterTable [1] [1] [0] fun a => (a : Int))) ∧
      cacheOf ⟨2, 1, 1, 2⟩ (waitForLayerLoad (fun n => 2 ^ Nat.clog 2 n) ⟨2, 1, 1, 2⟩ 2 quarterTable
          [⟨([], []), ([], []), [movedChunk]⟩] [0] fun a => (a : Int)) (1, 0, 0) =
        rotateVec 1 (tableOf 2 2 quarterTable 1) [2, 3] := by
  obtain ⟨hsame, hshift⟩ := @block_wise_rope_exact Nat Int _ (fun n => 2 ^ Nat.clog 2 n)
    (fun n => Nat.le_pow_clog Nat.one_lt_two n) ⟨2, 1, 1, 2⟩ (by decide) 2 quarterTable
    fun a => (a : Int)
  refine ⟨(hsame [1] [1] [0] (by decide) rfl (by decide) (by decide) (by decide)).1, ?_⟩
  obtain ⟨-, hchunk⟩ := hshift quarterTable_angleAddition
  exact hchunk [⟨([], []), ([], []), [movedChunk]⟩] [0] (by decide) (by decide) _
    List.mem_cons_self movedChunk List.mem_cons_self (by decide) 0 1 0 1 0 0 [2, 3] rfl rfl rfl rfl rfl
    (by decide)

end UnifiedCache.Connector
