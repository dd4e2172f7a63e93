import UnifiedCache.Connector.Blend
import UnifiedCache.Connector.Proofs.DispatchProofs
import UnifiedCache.Gsa.Proofs.BlocksProofs
import UnifiedCache.Lib.Lookup
import UnifiedCache.Lib.Masks
import UnifiedCache.Lib.Segments
import Mathlib.Data.List.Forall2
import Mathlib.Tactic.Ring

/-!
# Proofs: which chunk blocks are loaded, and what is done to them

The chunks of a request are the segments between the blocks that end with the end token of a chunk, and
their hashes in a row are the hash of every block within its chunk. As long as the prefix that is
stored does not go past the first chunk, its hashes are chunk hashes as well, and what is loaded is
selected from one list of hashes and one list of blocks. When it goes past, the first chunk is left with
a negative length.
-/

open Lib.Masks Lib.Segments

namespace UnifiedCache.Connector

variable {η : Type} {cfg : BlendConfig η} {has : η → Bool} {tokens : List Token}

/-! ## Blocks and chunks -/

/-- The hashes of the connector without context parallelism. -/
def BlendConfig.hashing (cfg : BlendConfig η) : Config η where
  hashBlockSize := cfg.blockSize
  cpWorldSize := 1
  persistTokenThreshold := 0
  requestHasher := cfg.requestHasher
  seed := cfg.seed
  hashBlockSize_pos := cfg.blockSize_pos
  cpWorldSize_pos := Nat.one_pos

/-- Block `j` is full, and its last token ends a chunk. -/
def EndsChunk (cfg : BlendConfig η) (tokens : List Token) (j : Nat) : Prop :=
  tokens[j * cfg.blockSize + (cfg.blockSize - 1)]? = some cfg.chunkEndTokenId

instance (j : Nat) : Decidable (EndsChunk cfg tokens j) :=
  inferInstanceAs (Decidable (_ = _))

/-- The first block of the chunk that block `j` belongs to. -/
def chunkStart (cfg : BlendConfig η) (tokens : List Token) : Nat → Nat
  | 0 => 0
  | j + 1 => if EndsChunk cfg tokens j then j + 1 else chunkStart cfg tokens j

/-- The hash of block `j` in the whole request. -/
def prefixHash (cfg : BlendConfig η) (tokens : List Token) (j : Nat) : η :=
  blockHash cfg.hashing tokens j

/-- The hash of block `j` when its chunk is hashed on its own. -/
def chunkHash (cfg : BlendConfig η) (tokens : List Token) (j : Nat) : η :=
  blockHash cfg.hashing (tokens.drop (chunkStart cfg tokens j * cfg.blockSize))
    (j - chunkStart cfg tokens j)

theorem chunkStart_le (cfg : BlendConfig η) (tokens : List Token) (j : Nat) :
    chunkStart cfg tokens j ≤ j := by
  induction j with
  | zero => exact Nat.le_refl 0
  | succ j ih =>
    unfold chunkStart
    split_ifs
    · exact Nat.le_refl _
    · omega

variable {j : Nat}

theorem chunkStart_succ_of_ends (h : EndsChunk cfg tokens j) :
    chunkStart cfg tokens (j + 1) = j + 1 := if_pos h

theorem chunkStart_succ_of_not (h : ¬EndsChunk cfg tokens j) :
    chunkStart cfg tokens (j + 1) = chunkStart cfg tokens j := if_neg h

theorem chunkStart_mono {i : Nat} (h : i ≤ j) :
    chunkStart cfg tokens i ≤ chunkStart cfg tokens j := by
  induction h with
  | refl => exact Nat.le_refl _
  | @step j hij ih =>
    refine ih.trans ?_
    have hle := chunkStart_le cfg tokens j
    show chunkStart cfg tokens j ≤ chunkStart cfg tokens (j + 1)
    by_cases hends : EndsChunk cfg tokens j
    · rw [chunkStart_succ_of_ends hends]
      omega
    · rw [chunkStart_succ_of_not hends]

variable {k : Nat}

theorem chunkStart_eq (hstart : chunkStart cfg tokens k ≤ j) (hj : j ≤ k) :
    chunkStart cfg tokens j = chunkStart cfg tokens k := by
  induction k with
  | zero => rw [Nat.le_zero.mp hj]
  | succ k ih =>
    by_cases hends : EndsChunk cfg tokens k
    · rw [chunkStart_succ_of_ends hends] at hstart
      rw [Nat.le_antisymm hj hstart]
    · rw [chunkStart_succ_of_not hends] at hstart ⊢
      rcases Nat.lt_or_eq_of_le hj with hlt | rfl
      · exact ih hstart (by omega)
      · exact chunkStart_succ_of_not hends

theorem chunkStart_eq_zero (h : ∀ j, j < k → ¬EndsChunk cfg tokens j) :
    chunkStart cfg tokens k = 0 := by
  induction k with
  | zero => rfl
  | succ k ih =>
    rw [chunkStart_succ_of_not (h k (Nat.lt_succ_self k))]
    exact ih fun j hj => h j (by omega)

theorem chunkHash_eq_prefixHash (h : chunkStart cfg tokens j = 0) :
    chunkHash cfg tokens j = prefixHash cfg tokens j := by
  unfold chunkHash prefixHash
  rw [h, Nat.zero_mul, List.drop_zero, Nat.sub_zero]

theorem EndsChunk.full (h : EndsChunk cfg tokens j) :
    (j + 1) * cfg.blockSize ≤ tokens.length := by
  obtain ⟨hlt, -⟩ := List.getElem?_eq_some_iff.mp h
  have := cfg.blockSize_pos
  rw [Nat.add_mul]
  omega

theorem map_generateHash (cfg : BlendConfig η) (l : List Token) :
    generateHash cfg.requestHasher cfg.blockSize l cfg.seed =
      (List.range (l.length / cfg.blockSize)).map (blockHash cfg.hashing l) := by
  refine List.ext_getElem? fun j => ?_
  have hget := getElem?_generateHash cfg.hashing l j
  have hlength := length_generateHash cfg.hashing l
  refine hget.trans ?_
  have hiff : (j + 1) * cfg.blockSize ≤ l.length ↔ j < l.length / cfg.blockSize := by
    rw [← Nat.le_div_iff_mul_le cfg.blockSize_pos]
    rfl
  show (if (j + 1) * cfg.blockSize ≤ l.length then some (blockHash cfg.hashing l j) else none) = _
  by_cases hj : j < l.length / cfg.blockSize
  · rw [if_pos (hiff.mpr hj), List.getElem?_map, List.getElem?_range hj]
    rfl
  · rw [if_neg (mt hiff.mp hj), List.getElem?_map, List.getElem?_eq_none]
    · rfl
    · rw [List.length_range]
      omega

/-- **The hashes of a chunk.** Those of its tokens are the hashes of its blocks in the chunk. -/
theorem generateHash_chunk (h : EndsChunk cfg tokens k) :
    generateHash cfg.requestHasher cfg.blockSize
        (slice tokens (chunkStart cfg tokens k * cfg.blockSize)
          (k * cfg.blockSize + (cfg.blockSize - 1) + 1)) cfg.seed =
      (List.range' (chunkStart cfg tokens k) (k - chunkStart cfg tokens k + 1)).map
        (chunkHash cfg tokens) := by
  have hpos := cfg.blockSize_pos
  have hfull := h.full
  have hstart := chunkStart_le cfg tokens k
  set s := chunkStart cfg tokens k with hs
  have hmul : (k - s + 1) * cfg.blockSize + s * cfg.blockSize = (k + 1) * cfg.blockSize := by
    rw [← Nat.add_mul]
    congr 1
    omega
  have hend : k * cfg.blockSize + (cfg.blockSize - 1) + 1 = (k + 1) * cfg.blockSize := by
    rw [Nat.add_mul]
    omega
  set chunk := slice tokens (s * cfg.blockSize) (k * cfg.blockSize + (cfg.blockSize - 1) + 1)
    with hchunk
  have hlength : chunk.length = (k - s + 1) * cfg.blockSize := by
    rw [hchunk, length_slice, hend]
    omega
  have happend : chunk ++ (tokens.drop (s * cfg.blockSize)).drop ((k - s + 1) * cfg.blockSize) =
      tokens.drop (s * cfg.blockSize) := by
    rw [hchunk, slice, hend, show (k + 1) * cfg.blockSize - s * cfg.blockSize =
      (k - s + 1) * cfg.blockSize by omega]
    exact List.take_append_drop _ _
  rw [map_generateHash, hlength, Nat.mul_div_cancel _ hpos, List.range'_eq_map_range, List.map_map]
  refine List.map_congr_left fun j hj => ?_
  have hj := List.mem_range.mp hj
  have hsj : chunkStart cfg tokens (s + j) = s :=
    chunkStart_eq (by omega) (by omega)
  show blockHash cfg.hashing chunk j = chunkHash cfg tokens (s + j)
  unfold chunkHash
  rw [hsj, Nat.add_sub_cancel_left, ← happend]
  refine (blockHash_append cfg.hashing chunk _ ?_).symm
  show (j + 1) * cfg.blockSize ≤ chunk.length
  rw [hlength]
  exact Nat.mul_le_mul_right _ (by omega)

/-! ## The chunks of a request -/

/-- The chunk at a segment of the blocks. -/
def chunkAt (cfg : BlendConfig η) (tokens : List Token) (s : Nat × Nat) : ChunkMetaData η where
  startTokenDix := (s.1 * cfg.blockSize : Nat)
  chunkTokensLen := (s.2 * cfg.blockSize : Nat)
  startBlkIdx := (s.1 : Nat)
  chunkBlksLen := (s.2 : Nat)
  cachedStartPosition := 0
  vllmBlkIds := []
  chunkBlksHash := (places s).map (chunkHash cfg tokens)
  storeHits := []

/-- The loop before block `k`, with the segments of the chunks it has found. -/
structure Split (cfg : BlendConfig η) (tokens : List Token) (k : Nat) (acc : Chunking η)
    (segments : List (Nat × Nat)) : Prop where
  startBlkIdx : acc.startBlkIdx = chunkStart cfg tokens k
  startTokenDix : acc.startTokenDix = chunkStart cfg tokens k * cfg.blockSize
  chunksMeta : acc.chunksMeta = segments.map (chunkAt cfg tokens)
  reqChunksHashes : acc.reqChunksHashes =
    (List.range (chunkStart cfg tokens k)).map (chunkHash cfg tokens)
  cut : Cut 0 (chunkStart cfg tokens k) segments
  starts : ∀ s ∈ segments, ∀ j ∈ places s, chunkStart cfg tokens j = s.1
  ends : ∀ s ∈ segments, EndsChunk cfg tokens (s.1 + s.2 - 1)

theorem Split.init (cfg : BlendConfig η) (tokens : List Token) :
    Split cfg tokens 0 ⟨0, 0, [], []⟩ [] where
  startBlkIdx := rfl
  startTokenDix := (Nat.zero_mul _).symm
  chunksMeta := rfl
  reqChunksHashes := rfl
  cut := .nil 0
  starts := fun _ hs => absurd hs List.not_mem_nil
  ends := fun _ hs => absurd hs List.not_mem_nil

theorem Split.step {acc : Chunking η} {segments : List (Nat × Nat)}
    (h : Split cfg tokens k acc segments) :
    ∃ segments', Split cfg tokens (k + 1) (splitBlock cfg tokens acc k) segments' := by
  by_cases hends : EndsChunk cfg tokens k
  · have hsucc := chunkStart_succ_of_ends hends
    have hle := chunkStart_le cfg tokens k
    have hhash := generateHash_chunk hends
    rw [← h.startTokenDix] at hhash
    have hlen : acc.startBlkIdx + (k - acc.startBlkIdx + 1) = k + 1 := by
      rw [h.startBlkIdx]
      omega
    have hplaces : List.range (k + 1) = List.range acc.startBlkIdx ++
        places (acc.startBlkIdx, k - acc.startBlkIdx + 1) := by
      rw [← hlen, List.range_eq_range', List.range_eq_range', places]
      have happend := List.range'_append_1 (s := 0) (m := acc.startBlkIdx)
        (n := k - acc.startBlkIdx + 1)
      rw [Nat.zero_add] at happend
      exact happend.symm
    have htoken : k * cfg.blockSize + (cfg.blockSize - 1) + 1 = (k + 1) * cfg.blockSize := by
      have := cfg.blockSize_pos
      rw [Nat.add_mul]
      omega
    refine ⟨segments ++ [(acc.startBlkIdx, k - acc.startBlkIdx + 1)], ?_⟩
    have hblock : tokens[k * cfg.blockSize + (cfg.blockSize - 1)]? = some cfg.chunkEndTokenId := hends
    unfold splitBlock
    dsimp only
    rw [if_pos hblock, hhash, ← h.startBlkIdx]
    constructor
    · exact hsucc.symm
    · rw [hsucc]
      exact htoken
    · show acc.chunksMeta ++ _ = _
      rw [h.chunksMeta, List.map_append, List.map_singleton]
      congr 2
      unfold chunkAt
      rw [h.startTokenDix, h.startBlkIdx]
      rfl
    · show acc.reqChunksHashes ++ _ = _
      rw [h.reqChunksHashes, hsucc, hplaces, List.map_append, h.startBlkIdx]
      rfl
    · rw [hsucc, ← hlen]
      have hcut := h.cut
      rw [← h.startBlkIdx] at hcut
      exact hcut.concat (Nat.succ_pos _)
    · intro s hs j hj
      rcases List.mem_append.mp hs with hs | hs
      · exact h.starts s hs j hj
      · rw [List.mem_singleton.mp hs] at hj ⊢
        have hj := List.mem_range'_1.mp hj
        dsimp only at hj ⊢
        rw [h.startBlkIdx] at hj ⊢
        exact chunkStart_eq hj.1 (by omega)
    · intro s hs
      rcases List.mem_append.mp hs with hs | hs
      · exact h.ends s hs
      · rw [List.mem_singleton.mp hs]
        show EndsChunk cfg tokens (acc.startBlkIdx + (k - acc.startBlkIdx + 1) - 1)
        rw [hlen]
        exact hends
  · refine ⟨segments, ?_⟩
    have hsucc := chunkStart_succ_of_not hends
    have hsame : splitBlock cfg tokens acc k = acc := if_neg hends
    rw [hsame]
    constructor
    · rw [hsucc, h.startBlkIdx]
    · rw [hsucc, h.startTokenDix]
    · exact h.chunksMeta
    · rw [hsucc, h.reqChunksHashes]
    · rw [hsucc]
      exact h.cut
    · exact h.starts
    · exact h.ends

theorem Split.run (cfg : BlendConfig η) (tokens : List Token) (n : Nat) :
    ∃ segments, Split cfg tokens n ((List.range n).foldl (splitBlock cfg tokens) ⟨0, 0, [], []⟩)
      segments := by
  induction n with
  | zero => exact ⟨[], .init cfg tokens⟩
  | succ n ih =>
    obtain ⟨segments, h⟩ := ih
    rw [List.range_succ, List.foldl_append]
    exact h.step

/-! ## What is selected -/

theorem compress_map {ι α : Type*} (f : ι → α) (p : ι → Bool) (l : List ι) :
    compress (l.map f) (l.map p) = (l.filter p).map f := keep_map_map f p l

theorem slice_map_range {α : Type*} (f : Nat → α) {a n m : Nat} (h : a + n ≤ m) :
    Gsa.Blocks.slice ((List.range m).map f) a ((a : Int) + n) = (places (a, n)).map f := by
  have hslice := Gsa.Blocks.slice_natCast ((List.range m).map f) a (a + n)
  rw [Nat.cast_add] at hslice
  rw [hslice, ← List.map_take, List.take_range, Nat.min_eq_left h, ← List.map_drop,
    List.range_eq_range', List.drop_range', Nat.zero_add, Nat.mul_one, Nat.add_sub_cancel_left]
  rfl

theorem updateMetaPartialPc_eq (c : ChunkMetaData η) (k bs : Nat) : c.updateMetaPartialPc k bs =
    { c with
      startTokenDix := c.startTokenDix + k * bs
      chunkTokensLen := c.chunkTokensLen - k * bs
      startBlkIdx := c.startBlkIdx + k
      chunkBlksLen := c.chunkBlksLen - k
      chunkBlksHash := c.chunkBlksHash.drop k
      storeHits := c.storeHits.drop k
      cachedStartPosition := c.cachedStartPosition + k * bs } := by
  unfold ChunkMetaData.updateMetaPartialPc
  by_cases hk : 0 < k
  · rw [if_pos hk]
  · obtain rfl : k = 0 := by omega
    rw [if_neg hk]
    simp

/-- A chunk of the plan: at the places of a segment, with the hits of the store. -/
structure Planned (cfg : BlendConfig η) (has : η → Bool) (tokens : List Token)
    (vllmBlockIds : List VllmBlock) (c : ChunkMetaData η) (s : Nat × Nat) : Prop where
  chunkTokensLen : c.chunkTokensLen = (s.2 * cfg.blockSize : Nat)
  chunkBlksLen : c.chunkBlksLen = s.2
  chunkBlksHash : c.chunkBlksHash = (places s).map (chunkHash cfg tokens)
  vllmBlkIds : c.vllmBlkIds = (places s).map (vllmBlockIds.getD · 0)
  storeHits : c.storeHits = (places s).map fun j => has (chunkHash cfg tokens j)
  positionOffset : ∀ j ∈ places s, c.positionOffset = (chunkStart cfg tokens j * cfg.blockSize : Nat)

/-- What the dispatch makes of a chunk of which `k` blocks are left out. -/
def dispatched (cfg : BlendConfig η) (vllmBlockIds : List VllmBlock) (k : Nat)
    (c : ChunkMetaData η) : ChunkMetaData η :=
  let c := c.updateMetaPartialPc k cfg.blockSize
  { c with vllmBlkIds := Gsa.Blocks.slice vllmBlockIds c.startBlkIdx c.endBlkIdx }

theorem planned_dispatched {vllmBlockIds : List VllmBlock} {s : Nat × Nat} {hits : List Bool}
    (hstarts : ∀ j ∈ places s, chunkStart cfg tokens j = s.1) (hk : k ≤ s.2)
    (hvllm : s.1 + s.2 ≤ vllmBlockIds.length)
    (hhits : hits = (places s).map fun j => has (chunkHash cfg tokens j)) :
    Planned cfg has tokens vllmBlockIds
      (dispatched cfg vllmBlockIds k { chunkAt cfg tokens s with storeHits := hits })
      (s.1 + k, s.2 - k) := by
  have hdrop : ∀ {α : Type _} (f : Nat → α),
      ((places s).map f).drop k = (places (s.1 + k, s.2 - k)).map f := by
    intro α f
    rw [← List.map_drop, places, List.drop_range', Nat.mul_one]
    rfl
  unfold dispatched
  rw [updateMetaPartialPc_eq]
  constructor
  · show ((s.2 * cfg.blockSize : Nat) : Int) - k * cfg.blockSize = _
    rw [Nat.mul_comm (s.2 - k), Nat.mul_sub, Nat.cast_sub (Nat.mul_le_mul_left _ hk)]
    push_cast
    ring
  · show ((s.2 : Nat) : Int) - k = _
    omega
  · exact hdrop _
  · show Gsa.Blocks.slice vllmBlockIds ((s.1 : Int) + k) ((s.1 : Int) + k + ((s.2 : Int) - k)) = _
    have hslice := slice_map_range (vllmBlockIds.getD · 0)
      (show s.1 + k + (s.2 - k) ≤ vllmBlockIds.length by omega)
    rw [map_getD_range] at hslice
    rw [← hslice]
    congr 1
    omega
  · show hits.drop k = _
    rw [hhits]
    exact hdrop _
  · intro j hj
    have hj := List.mem_range'_1.mp hj
    dsimp only at hj
    rw [hstarts j (List.mem_range'_1.mpr (by omega))]
    show ((s.1 * cfg.blockSize : Nat) : Int) + k * cfg.blockSize - (0 + k * cfg.blockSize) = _
    ring

theorem Planned.flatMap {vllmBlockIds : List VllmBlock} {chunks : List (ChunkMetaData η)}
    {segments : List (Nat × Nat)}
    (h : List.Forall₂ (Planned cfg has tokens vllmBlockIds) chunks segments) :
    let hits := (segments.flatMap places).filter fun j => has (chunkHash cfg tokens j)
    chunks.flatMap ChunkMetaData.hitsChunkBlksHash = hits.map (chunkHash cfg tokens) ∧
      deltaRope chunks = (hits.map (vllmBlockIds.getD · 0),
        hits.map fun j => ((chunkStart cfg tokens j * cfg.blockSize : Nat) : Int)) := by
  induction h with
  | nil => exact ⟨rfl, rfl⟩
  | @cons c s chunks segments hc _ ih =>
    have hvllm : c.hitsVllmBlkIds =
        ((places s).filter fun j => has (chunkHash cfg tokens j)).map (vllmBlockIds.getD · 0) := by
      unfold ChunkMetaData.hitsVllmBlkIds
      rw [hc.vllmBlkIds, hc.storeHits, compress_map]
    have hhash : c.hitsChunkBlksHash =
        ((places s).filter fun j => has (chunkHash cfg tokens j)).map (chunkHash cfg tokens) := by
      unfold ChunkMetaData.hitsChunkBlksHash
      rw [hc.chunkBlksHash, hc.storeHits, compress_map]
    have hoffset : List.replicate c.hitsVllmBlkIds.length c.positionOffset =
        ((places s).filter fun j => has (chunkHash cfg tokens j)).map
          fun j => ((chunkStart cfg tokens j * cfg.blockSize : Nat) : Int) := by
      rw [hvllm, List.length_map, eq_comm, List.eq_replicate_iff]
      refine ⟨List.length_map _, ?_⟩
      intro b hb
      obtain ⟨j, hj, rfl⟩ := List.mem_map.mp hb
      exact (hc.positionOffset j (List.mem_filter.mp hj).1).symm
    obtain ⟨ihhash, ihrope⟩ := ih
    obtain ⟨ihvllm, ihoffset⟩ := Prod.mk.inj ihrope
    refine ⟨?_, Prod.ext ?_ ?_⟩
    · rw [List.flatMap_cons, ihhash, hhash, List.flatMap_cons, List.filter_append, List.map_append]
    · show c.hitsVllmBlkIds ++ chunks.flatMap ChunkMetaData.hitsVllmBlkIds = _
      rw [ihvllm, hvllm, List.flatMap_cons, List.filter_append, List.map_append]
    · show List.replicate c.hitsVllmBlkIds.length c.positionOffset ++ chunks.flatMap
        (fun c => List.replicate c.hitsVllmBlkIds.length c.positionOffset) = _
      rw [ihoffset, hoffset, List.flatMap_cons, List.filter_append, List.map_append, List.map_append]

theorem Planned.nonneg {vllmBlockIds : List VllmBlock} {chunks : List (ChunkMetaData η)}
    {segments : List (Nat × Nat)}
    (h : List.Forall₂ (Planned cfg has tokens vllmBlockIds) chunks segments) :
    ∀ c ∈ chunks, 0 ≤ c.chunkTokensLen ∧ 0 ≤ c.chunkBlksLen := by
  induction h with
  | nil => exact fun _ hc => absurd hc List.not_mem_nil
  | cons hc _ ih =>
    refine List.forall_mem_cons.mpr ⟨?_, ih⟩
    rw [hc.chunkTokensLen, hc.chunkBlksLen]
    exact ⟨Int.natCast_nonneg _, Int.natCast_nonneg _⟩

/-! ## The request and the store -/

theorem processReq_cases (cfg : BlendConfig η) (tokens : List Token) :
    processReq cfg tokens = (.buildChunkCache,
      generateHash cfg.requestHasher cfg.blockSize tokens cfg.seed, [], []) ∨
    ∃ segments acc, Split cfg tokens (tokens.length / cfg.blockSize) acc segments ∧
      processReq cfg tokens = (if segments ≠ [] then .cacheBlend else .buildPrefixCache,
        generateHash cfg.requestHasher cfg.blockSize tokens cfg.seed,
        segments.map (chunkAt cfg tokens),
        (List.range (chunkStart cfg tokens (tokens.length / cfg.blockSize))).map
          (chunkHash cfg tokens)) := by
  unfold processReq
  dsimp only
  split_ifs with hbuild hchunks
  · left
    rfl
  all_goals
    right
    obtain ⟨segments, h⟩ := Split.run cfg tokens (tokens.length / cfg.blockSize)
    have hmap := h.chunksMeta
    have hhashes := h.reqChunksHashes
    refine ⟨segments, _, h, ?_⟩
    rw [hmap, ne_eq, List.map_eq_nil_iff] at hchunks
    first | rw [if_pos hchunks] | rw [if_neg hchunks]
    rw [hmap, hhashes]

/-- The blocks of the prefix that is stored. -/
def pcHitBlocks (cfg : BlendConfig η) (has : η → Bool) (tokens : List Token) : Nat :=
  (((generateHash cfg.requestHasher cfg.blockSize tokens cfg.seed).map has).takeWhile id).length

theorem lt_pcHitBlocks_iff : k < pcHitBlocks cfg has tokens ↔
    k < tokens.length / cfg.blockSize ∧ ∀ j ≤ k, has (prefixHash cfg tokens j) = true := by
  unfold pcHitBlocks
  rw [map_generateHash, List.map_map, Lib.lt_length_takeWhile_iff, List.length_map,
    List.length_range]
  refine and_congr_right fun hk => forall₂_congr fun j hj => ?_
  rw [List.getElem?_map, List.getElem?_range (by omega)]
  show (∀ x, some (has (prefixHash cfg tokens j)) = some x → x = true) ↔ _
  simp

/-- What the two lookups have found, put together. -/
def storeResults (cfg : BlendConfig η) (has : η → Bool) (tokens : List Token) : List Bool :=
  ((generateHash cfg.requestHasher cfg.blockSize tokens cfg.seed).map has).take
      (pcHitBlocks cfg has tokens) ++
    (((List.range (chunkStart cfg tokens (tokens.length / cfg.blockSize))).map
      (chunkHash cfg tokens)).drop (pcHitBlocks cfg has tokens)).map has

/-- The chunk at a segment with its hits. -/
def hitChunk (cfg : BlendConfig η) (has : η → Bool) (tokens : List Token) (s : Nat × Nat) :
    ChunkMetaData η :=
  { chunkAt cfg tokens s with
    storeHits := Gsa.Blocks.slice (storeResults cfg has tokens) s.1 ((s.1 : Int) + s.2) }

/-- What is noted of a request whose chunks are blended. -/
structure BlendNoted (cfg : BlendConfig η) (has : η → Bool) (tokens : List Token)
    (reqMeta : BlendRequestMeta η) (s : Nat × Nat) (segments : List (Nat × Nat)) : Prop where
  ucmBlockHashs : reqMeta.ucmBlockHashs =
    (List.range (chunkStart cfg tokens (tokens.length / cfg.blockSize))).map (chunkHash cfg tokens)
  pcHitBlockNum : reqMeta.pcHitBlockNum = pcHitBlocks cfg has tokens
  pcHitBlocks_lt : pcHitBlocks cfg has tokens <
    chunkStart cfg tokens (tokens.length / cfg.blockSize)
  split : ∃ acc, Split cfg tokens (tokens.length / cfg.blockSize) acc (s :: segments)
  chunksMeta : reqMeta.chunksMeta =
    let c := (hitChunk cfg has tokens s).updateMetaPartialPc (pcHitBlocks cfg has tokens) cfg.blockSize
    if c.chunkTokensLen = 0 then segments.map (hitChunk cfg has tokens)
    else c :: segments.map (hitChunk cfg has tokens)

theorem noted_of_cacheBlend {numComputedTokens matched : Nat} {reqMeta : BlendRequestMeta η}
    (h : getNumNewMatchedTokensBlend cfg has tokens numComputedTokens = some (matched, some reqMeta))
    (hstage : reqMeta.blendStage = .cacheBlend) :
    ∃ s segments, BlendNoted cfg has tokens reqMeta s segments := by
  unfold getNumNewMatchedTokensBlend at h
  dsimp only at h
  split_ifs at h with hcomputed hnone
  · exact absurd h (by simp)
  · obtain ⟨⟨⟨pc, hits⟩, chunks⟩, hhit, h⟩ := Option.bind_eq_some_iff.mp h
    obtain ⟨-, h⟩ := Prod.mk.inj (Option.some.inj h)
    obtain rfl := Option.some.inj h
    dsimp only at hstage
    have hmany : ¬hits < minBlendThreshold := by
      intro hfew
      rw [if_pos hfew] at hstage
      cases hstage
    rw [if_neg hmany] at hstage
    unfold getReqChunkHit at hhit
    dsimp only at hhit
    rw [if_neg (by rw [hstage]; exact fun hne => hne rfl)] at hhit
    rcases processReq_cases cfg tokens with hbuild | ⟨segments, acc, hsplit, hprocess⟩
    · rw [hbuild] at hstage
      cases hstage
    rw [hprocess] at hhit hstage ⊢
    dsimp only at hhit hstage ⊢
    cases segments with
    | nil => cases hstage
    | cons s segments =>
      obtain ⟨hpair, hchunks⟩ := Prod.mk.inj (Option.some.inj hhit)
      obtain ⟨rfl, hcount⟩ := Prod.mk.inj hpair
      refine ⟨s, segments, ?_⟩
      constructor
      · show (if (if hits < minBlendThreshold then BlendStage.buildPrefixCache else _) =
          BlendStage.cacheBlend then _ else _) = _
        rw [if_neg hmany, if_pos hstage]
      · rfl
      · by_contra hle
        have hzero : (((List.range (chunkStart cfg tokens (tokens.length / cfg.blockSize))).map
            (chunkHash cfg tokens)).drop (pcHitBlocks cfg has tokens)).map has = [] := by
          rw [List.drop_eq_nil_of_le, List.map_nil]
          rw [List.length_map, List.length_range]
          exact Nat.le_of_not_lt hle
        have hcount : List.count true _ = hits := hcount
        refine hmany ?_
        rw [← hcount]
        exact (congrArg (List.count true) hzero).trans_lt (by decide)
      · exact ⟨acc, hsplit⟩
      · show (if hits < minBlendThreshold then [] else chunks) = _
        rw [if_neg hmany, ← hchunks, List.map_map]
        rfl

/-! ## The plan -/

/-- The load plan `_generate_blend_dispatch_meta` should make: hashes go with blocks of the GPU, and
none of these is loaded into twice; what is loaded is in the store and belongs to the place of its
block; the first `pcHitBlockNum` blocks are prefix and stay as they are, and the keys of the others
are shifted from their place in the chunk to their place in the request. -/
structure LoadPlanOk (cfg : BlendConfig η) (has : η → Bool) (tokens : List Token)
    (vllmBlockIds : List VllmBlock) (pcHitBlockNum : Nat) (d : BlendRequestDispatchMeta η) :
    Prop where
  paired : d.loadBlockIds.1.length = d.loadBlockIds.2.length
  once : d.loadBlockIds.2.Nodup
  loads : ∀ x ∈ d.loadBlockIds.1.zip d.loadBlockIds.2, has x.1 = true ∧
    ∃ j, vllmBlockIds[j]? = some x.2 ∧ (x.1 = prefixHash cfg tokens j ∨ x.1 = chunkHash cfg tokens j)
  chunks : ∀ c ∈ d.chunksMeta, 0 ≤ c.chunkTokensLen ∧ 0 ≤ c.chunkBlksLen
  unshifted : ∀ x ∈ (d.loadBlockIds.1.zip d.loadBlockIds.2).take pcHitBlockNum,
    ∃ j, vllmBlockIds[j]? = some x.2 ∧ x.1 = prefixHash cfg tokens j
  shifted : (deltaRope d.chunksMeta).1 = d.loadBlockIds.2.drop pcHitBlockNum
  offsets_length : (deltaRope d.chunksMeta).2.length = (deltaRope d.chunksMeta).1.length
  offsets : ∀ x ∈ (d.loadBlockIds.1.drop pcHitBlockNum).zip
      ((deltaRope d.chunksMeta).1.zip (deltaRope d.chunksMeta).2),
    ∃ j, vllmBlockIds[j]? = some x.2.1 ∧ x.1 = chunkHash cfg tokens j ∧
      x.2.2 = ((j * cfg.blockSize : Nat) : Int) -
        ((j - chunkStart cfg tokens j) * cfg.blockSize : Nat)

/-- No chunk ends before the last block of the prefix that is stored. -/
def PrefixInFirstChunk (cfg : BlendConfig η) (has : η → Bool) (tokens : List Token) : Prop :=
  ∀ k, k < tokens.length / cfg.blockSize → (∀ j ≤ k, has (prefixHash cfg tokens j) = true) →
    ∀ j < k, ¬EndsChunk cfg tokens j

section Plan

variable {vllmBlockIds : List VllmBlock} {reqMeta : BlendRequestMeta η} {s : Nat × Nat}
  {segments : List (Nat × Nat)}

theorem PrefixInFirstChunk.start_eq (h : PrefixInFirstChunk cfg has tokens)
    (hj : j < pcHitBlocks cfg has tokens) : chunkStart cfg tokens j = 0 := by
  obtain ⟨hlt, hstored⟩ := lt_pcHitBlocks_iff.mp hj
  exact chunkStart_eq_zero (h j hlt hstored)

theorem PrefixInFirstChunk.le (h : PrefixInFirstChunk cfg has tokens)
    (hnoted : BlendNoted cfg has tokens reqMeta s segments) : pcHitBlocks cfg has tokens ≤ s.2 := by
  obtain ⟨acc, hsplit⟩ := hnoted.split
  by_contra hlt
  have hends := hsplit.ends s List.mem_cons_self
  obtain ⟨hlast, hstored⟩ := lt_pcHitBlocks_iff.mp (Nat.lt_of_not_le hlt)
  obtain ⟨hstart, hpos⟩ := hsplit.cut.head
  exact h s.2 hlast hstored (s.1 + s.2 - 1) (by omega) hends

theorem pcHitBlocks_le : pcHitBlocks cfg has tokens ≤ tokens.length / cfg.blockSize := by
  by_contra hlt
  exact Nat.lt_irrefl _ (lt_pcHitBlocks_iff.mp (Nat.lt_of_not_le hlt)).1

theorem storeResults_eq (h : PrefixInFirstChunk cfg has tokens)
    (hle : pcHitBlocks cfg has tokens ≤ chunkStart cfg tokens (tokens.length / cfg.blockSize)) :
    storeResults cfg has tokens =
      (List.range (chunkStart cfg tokens (tokens.length / cfg.blockSize))).map
        fun j => has (chunkHash cfg tokens j) := by
  have htake : ((generateHash cfg.requestHasher cfg.blockSize tokens cfg.seed).map has).take
      (pcHitBlocks cfg has tokens) = ((List.range (chunkStart cfg tokens (tokens.length /
        cfg.blockSize))).take (pcHitBlocks cfg has tokens)).map
          fun j => has (chunkHash cfg tokens j) := by
    rw [map_generateHash, List.map_map, ← List.map_take, List.take_range, List.take_range,
      Nat.min_eq_left pcHitBlocks_le, Nat.min_eq_left hle]
    refine List.map_congr_left fun j hj => ?_
    rw [chunkHash_eq_prefixHash (h.start_eq (List.mem_range.mp hj))]
    rfl
  unfold storeResults
  rw [htake, ← List.map_drop, List.map_map]
  show _ ++ List.map (fun j => has (chunkHash cfg tokens j)) _ = _
  rw [← List.map_append, List.take_append_drop]

theorem planned_hitChunk (h : PrefixInFirstChunk cfg has tokens)
    (hnoted : BlendNoted cfg has tokens reqMeta s segments)
    (hlen : tokens.length / cfg.blockSize ≤ vllmBlockIds.length) {s' : Nat × Nat}
    (hs' : s' ∈ s :: segments) (hk : k ≤ s'.2) :
    Planned cfg has tokens vllmBlockIds (dispatched cfg vllmBlockIds k (hitChunk cfg has tokens s'))
      (s'.1 + k, s'.2 - k) := by
  obtain ⟨acc, hsplit⟩ := hnoted.split
  obtain ⟨-, -, hend⟩ := hsplit.cut.mem hs'
  have hlast := chunkStart_le cfg tokens (tokens.length / cfg.blockSize)
  refine planned_dispatched (hsplit.starts s' hs') hk (by omega) ?_
  rw [storeResults_eq h hnoted.pcHitBlocks_lt.le]
  exact slice_map_range _ hend

/-- The blocks that are loaded, in the order of the plan. -/
def plannedBlocks (cfg : BlendConfig η) (has : η → Bool) (tokens : List Token) : List Nat :=
  List.range (pcHitBlocks cfg has tokens) ++
    (List.range' (pcHitBlocks cfg has tokens)
      (chunkStart cfg tokens (tokens.length / cfg.blockSize) - pcHitBlocks cfg has tokens)).filter
        fun j => has (chunkHash cfg tokens j)

/-- **The chunks as they are dispatched** are segments from the end of the stored prefix on. -/
theorem exists_planned (h : PrefixInFirstChunk cfg has tokens)
    (hnoted : BlendNoted cfg has tokens reqMeta s segments)
    (hlen : tokens.length / cfg.blockSize ≤ vllmBlockIds.length) :
    ∃ segments', Cut (pcHitBlocks cfg has tokens)
        (chunkStart cfg tokens (tokens.length / cfg.blockSize)) segments' ∧
      List.Forall₂ (Planned cfg has tokens vllmBlockIds)
        (reqMeta.chunksMeta.map (dispatched cfg vllmBlockIds 0)) segments' := by
  have hle := h.le hnoted
  obtain ⟨acc, hsplit⟩ := hnoted.split
  obtain ⟨hstart, hpos⟩ := hsplit.cut.head
  have htail := hsplit.cut.tail
  rw [hstart, Nat.zero_add] at htail
  have hrest : List.Forall₂ (Planned cfg has tokens vllmBlockIds)
      ((segments.map (hitChunk cfg has tokens)).map (dispatched cfg vllmBlockIds 0)) segments := by
    rw [List.map_map, List.forall₂_map_left_iff, List.forall₂_same]
    intro s' hs'
    exact planned_hitChunk h hnoted hlen (List.mem_cons_of_mem _ hs') (Nat.zero_le _)
  have hfirst := planned_hitChunk h hnoted hlen List.mem_cons_self hle
  have htokens := hfirst.chunkTokensLen
  rw [hstart, Nat.zero_add] at hfirst
  rw [hnoted.chunksMeta]
  dsimp only
  by_cases hall : pcHitBlocks cfg has tokens = s.2
  · refine ⟨segments, hall ▸ htail, ?_⟩
    rw [if_pos]
    · exact hrest
    · show (dispatched cfg vllmBlockIds _ _).chunkTokensLen = 0
      rw [htokens, hall, Nat.sub_self, Nat.zero_mul]
      rfl
  · refine ⟨(pcHitBlocks cfg has tokens, s.2 - pcHitBlocks cfg has tokens) :: segments, ?_, ?_⟩
    · refine .cons (by omega) ?_
      rw [Nat.add_sub_cancel' hle]
      exact htail
    · rw [if_neg]
      · exact .cons hfirst hrest
      · show (dispatched cfg vllmBlockIds _ _).chunkTokensLen ≠ 0
        rw [htokens]
        have : 0 < (s.2 - pcHitBlocks cfg has tokens) * cfg.blockSize :=
          Nat.mul_pos (by omega) cfg.blockSize_pos
        exact Int.natCast_ne_zero.mpr this.ne'

/-- **What is loaded and shifted**, as one list of blocks. -/
theorem generateBlendDispatchMeta_eq (h : PrefixInFirstChunk cfg has tokens)
    (hnoted : BlendNoted cfg has tokens reqMeta s segments) (hstage : reqMeta.blendStage = .cacheBlend)
    (hlen : tokens.length / cfg.blockSize ≤ vllmBlockIds.length) :
    let d := generateBlendDispatchMeta reqMeta vllmBlockIds
    let blocks := plannedBlocks cfg has tokens
    let shifted := blocks.drop (pcHitBlocks cfg has tokens)
    d.loadBlockIds = (blocks.map (chunkHash cfg tokens), blocks.map (vllmBlockIds.getD · 0)) ∧
      deltaRope d.chunksMeta = (shifted.map (vllmBlockIds.getD · 0),
        shifted.map fun j => ((chunkStart cfg tokens j * cfg.blockSize : Nat) : Int)) ∧
      ∀ c ∈ d.chunksMeta, 0 ≤ c.chunkTokensLen ∧ 0 ≤ c.chunkBlksLen := by
  obtain ⟨segments', hcut, hplanned⟩ := exists_planned h hnoted hlen
  obtain ⟨hhash, hrope⟩ := Planned.flatMap hplanned
  have hlt := hnoted.pcHitBlocks_lt
  have hlast := chunkStart_le cfg tokens (tokens.length / cfg.blockSize)
  rw [hcut.flatMap_places] at hhash hrope
  have hdrop : (plannedBlocks cfg has tokens).drop (pcHitBlocks cfg has tokens) =
      (List.range' (pcHitBlocks cfg has tokens)
        (chunkStart cfg tokens (tokens.length / cfg.blockSize) -
          pcHitBlocks cfg has tokens)).filter fun j => has (chunkHash cfg tokens j) :=
    List.drop_left' List.length_range
  intro d blocks shifted
  have hd : d = ⟨(reqMeta.ucmBlockHashs.take reqMeta.pcHitBlockNum ++
        (reqMeta.chunksMeta.map (dispatched cfg vllmBlockIds 0)).flatMap
          ChunkMetaData.hitsChunkBlksHash,
      vllmBlockIds.take reqMeta.pcHitBlockNum ++
        (reqMeta.chunksMeta.map (dispatched cfg vllmBlockIds 0)).flatMap
          ChunkMetaData.hitsVllmBlkIds), ([], []),
      reqMeta.chunksMeta.map (dispatched cfg vllmBlockIds 0)⟩ := by
    show generateBlendDispatchMeta reqMeta vllmBlockIds = _
    unfold generateBlendDispatchMeta
    rw [if_pos hstage]
    rfl
  have hvllm := (Prod.mk.inj hrope).1
  have hblocks : blocks = List.range (pcHitBlocks cfg has tokens) ++ shifted := by
    show plannedBlocks cfg has tokens = _ ++ (plannedBlocks cfg has tokens).drop _
    rw [hdrop]
    rfl
  rw [← hdrop] at hhash hvllm hrope
  rw [hd]
  refine ⟨Prod.ext ?_ ?_, hrope, Planned.nonneg hplanned⟩
  · show _ ++ _ = blocks.map (chunkHash cfg tokens)
    rw [hhash, hblocks, List.map_append, hnoted.ucmBlockHashs, hnoted.pcHitBlockNum,
      ← List.map_take, List.take_range, Nat.min_eq_left hlt.le]
  · show _ ++ _ = blocks.map (vllmBlockIds.getD · 0)
    have htake : vllmBlockIds.take (pcHitBlocks cfg has tokens) =
        (List.range (pcHitBlocks cfg has tokens)).map (vllmBlockIds.getD · 0) := by
      rw [← Nat.min_eq_left (a := pcHitBlocks cfg has tokens) (b := vllmBlockIds.length) (by omega),
        ← List.take_range, List.map_take, map_getD_range, Nat.min_eq_left (by omega)]
    rw [hvllm, hblocks, List.map_append, hnoted.pcHitBlockNum, htake]

theorem mem_plannedBlocks (h : PrefixInFirstChunk cfg has tokens)
    (hnoted : BlendNoted cfg has tokens reqMeta s segments) (hj : j ∈ plannedBlocks cfg has tokens) :
    j < tokens.length / cfg.blockSize ∧ has (chunkHash cfg tokens j) = true := by
  have hlt := hnoted.pcHitBlocks_lt
  have hlast := chunkStart_le cfg tokens (tokens.length / cfg.blockSize)
  rcases List.mem_append.mp hj with hj | hj
  · have hj := List.mem_range.mp hj
    refine ⟨by omega, ?_⟩
    rw [chunkHash_eq_prefixHash (h.start_eq hj)]
    exact (lt_pcHitBlocks_iff.mp hj).2 j (Nat.le_refl j)
  · obtain ⟨hj, hhas⟩ := List.mem_filter.mp hj
    have hj := List.mem_range'_1.mp hj
    exact ⟨by omega, hhas⟩

theorem nodup_plannedBlocks : (plannedBlocks cfg has tokens).Nodup := by
  unfold plannedBlocks
  refine List.nodup_append'.mpr ⟨List.nodup_range, .filter _ List.nodup_range', ?_⟩
  intro j hj hj'
  have hj := List.mem_range.mp hj
  have hj' := List.mem_range'_1.mp (List.mem_filter.mp hj').1
  omega

theorem PrefixInFirstChunk.loadPlanOk (h : PrefixInFirstChunk cfg has tokens)
    (hnoted : BlendNoted cfg has tokens reqMeta s segments) (hstage : reqMeta.blendStage = .cacheBlend)
    (hnodup : vllmBlockIds.Nodup) (hlen : tokens.length / cfg.blockSize ≤ vllmBlockIds.length) :
    LoadPlanOk cfg has tokens vllmBlockIds reqMeta.pcHitBlockNum
      (generateBlendDispatchMeta reqMeta vllmBlockIds) := by
  obtain ⟨hload, hrope, hchunks⟩ := generateBlendDispatchMeta_eq h hnoted hstage hlen
  have hmem := fun j (hj : j ∈ plannedBlocks cfg has tokens) => mem_plannedBlocks h hnoted hj
  have hvllm : ∀ j ∈ plannedBlocks cfg has tokens,
      vllmBlockIds[j]? = some (vllmBlockIds.getD j 0) := by
    intro j hj
    have hlt : j < vllmBlockIds.length := (hmem j hj).1.trans_le hlen
    rw [List.getD_eq_getElem _ _ hlt, List.getElem?_eq_getElem hlt]
  constructor
  · rw [hload, List.length_map, List.length_map]
  · rw [hload]
    refine nodup_plannedBlocks.map_on ?_
    intro i hi j hj heq
    have hsame := hvllm i hi
    rw [heq, ← hvllm j hj] at hsame
    exact (List.getElem?_inj ((hmem i hi).1.trans_le hlen) hnodup).mp hsame
  · rw [hload, List.zip_map']
    intro x hx
    obtain ⟨j, hj, rfl⟩ := List.mem_map.mp hx
    exact ⟨(hmem j hj).2, j, hvllm j hj, Or.inr rfl⟩
  · exact hchunks
  · rw [hload, List.zip_map', hnoted.pcHitBlockNum, ← List.map_take]
    intro x hx
    obtain ⟨j, hj, rfl⟩ := List.mem_map.mp hx
    have htake : (plannedBlocks cfg has tokens).take (pcHitBlocks cfg has tokens) =
        List.range (pcHitBlocks cfg has tokens) := List.take_left' List.length_range
    refine ⟨j, hvllm j (List.mem_of_mem_take hj), ?_⟩
    rw [htake] at hj
    exact chunkHash_eq_prefixHash (h.start_eq (List.mem_range.mp hj))
  · rw [hrope, hload, hnoted.pcHitBlockNum, ← List.map_drop]
  · rw [hrope, List.length_map, List.length_map]
  · rw [hrope, hload, hnoted.pcHitBlockNum, ← List.map_drop, List.zip_map', List.zip_map']
    intro x hx
    obtain ⟨j, hj, rfl⟩ := List.mem_map.mp hx
    refine ⟨j, hvllm j (List.mem_of_mem_drop hj), rfl, ?_⟩
    have hle := chunkStart_le cfg tokens j
    show ((chunkStart cfg tokens j * cfg.blockSize : Nat) : Int) = _
    rw [Nat.sub_mul, Nat.cast_sub (Nat.mul_le_mul_right _ hle)]
    ring

theorem exists_negative (h : ¬PrefixInFirstChunk cfg has tokens)
    (hnoted : BlendNoted cfg has tokens reqMeta s segments) (hstage : reqMeta.blendStage = .cacheBlend) :
    ∃ c ∈ (generateBlendDispatchMeta reqMeta vllmBlockIds).chunksMeta, c.chunkTokensLen < 0 := by
  obtain ⟨acc, hsplit⟩ := hnoted.split
  unfold PrefixInFirstChunk at h
  push Not at h
  obtain ⟨k, hk, hstored, j, hj, hends⟩ := h
  have hpc := lt_pcHitBlocks_iff.mpr ⟨hk, hstored⟩
  obtain ⟨hstart, hpos⟩ := hsplit.cut.head
  have hpast : s.2 < pcHitBlocks cfg has tokens := by
    by_contra hle
    have hin := hsplit.starts s List.mem_cons_self (j + 1)
      (List.mem_range'_1.mpr (by omega))
    rw [chunkStart_succ_of_ends hends] at hin
    omega
  have hneg : ((hitChunk cfg has tokens s).updateMetaPartialPc (pcHitBlocks cfg has tokens)
      cfg.blockSize).chunkTokensLen < 0 := by
    rw [updateMetaPartialPc_eq]
    show ((s.2 * cfg.blockSize : Nat) : Int) - (pcHitBlocks cfg has tokens : Int) * cfg.blockSize < 0
    have hmul := (Nat.mul_lt_mul_right cfg.blockSize_pos).mpr hpast
    rw [← Nat.cast_mul]
    omega
  have hchunks := hnoted.chunksMeta
  dsimp only at hchunks
  rw [if_neg hneg.ne] at hchunks
  unfold generateBlendDispatchMeta
  rw [if_pos hstage, hchunks]
  exact ⟨_, List.mem_cons_self, hneg⟩

end Plan

/-! ## The main result -/

/-- The blocks of a chunk. -/
def ChunkMetaData.blocks (c : ChunkMetaData η) : List Nat :=
  List.range' c.startBlkIdx.toNat c.chunkBlksLen.toNat

/-- The chunks of a request follow each other from block `0` to the end of the last one, and past it no
chunk ends. -/
structure ChunksOk (cfg : BlendConfig η) (tokens : List Token) (stage : BlendStage)
    (chunks : List (ChunkMetaData η)) (n : Nat) : Prop where
  blocks : chunks.flatMap ChunkMetaData.blocks = List.range n
  last : ∀ c ∈ chunks.getLast?, c.endBlkIdx = n
  nonempty : ∀ c ∈ chunks, 0 ≤ c.startBlkIdx ∧ 0 < c.chunkBlksLen
  token_places : ∀ c ∈ chunks, c.startTokenDix = c.startBlkIdx * cfg.blockSize ∧
    c.chunkTokensLen = c.chunkBlksLen * cfg.blockSize
  ends : stage ≠ .buildChunkCache → ∀ j, EndsChunk cfg tokens j → j < n

theorem exists_chunksOk (cfg : BlendConfig η) (tokens : List Token) :
    ∃ n, ChunksOk cfg tokens (processReq cfg tokens).1 (processReq cfg tokens).2.2.1 n := by
  rcases processReq_cases cfg tokens with hbuild | ⟨segments, acc, hsplit, hprocess⟩
  · refine ⟨0, ?_⟩
    rw [hbuild]
    exact ⟨rfl, by simp, by simp, by simp, fun h => absurd rfl h⟩
  · refine ⟨chunkStart cfg tokens (tokens.length / cfg.blockSize), ?_⟩
    rw [hprocess]
    constructor
    · show (segments.map (chunkAt cfg tokens)).flatMap ChunkMetaData.blocks = _
      rw [List.flatMap_map]
      have hcover := hsplit.cut.flatMap_places
      rw [← List.range_eq_range'] at hcover
      exact hcover
    · intro c hc
      rw [List.getLast?_map] at hc
      obtain ⟨s, hs, rfl⟩ := Option.map_eq_some_iff.mp hc
      have hend := hsplit.cut.getLast? s hs
      show ((s.1 : Nat) : Int) + ((s.2 : Nat) : Int) = _
      omega
    · intro c hc
      obtain ⟨s, hs, rfl⟩ := List.mem_map.mp hc
      obtain ⟨-, hpos, -⟩ := hsplit.cut.mem hs
      exact ⟨Int.natCast_nonneg _, Int.natCast_pos.mpr hpos⟩
    · intro c hc
      obtain ⟨s, -, rfl⟩ := List.mem_map.mp hc
      exact ⟨Nat.cast_mul _ _, Nat.cast_mul _ _⟩
    · intro _ j hends
      have hfull := (Nat.le_div_iff_mul_le cfg.blockSize_pos).mpr hends.full
      have hmono : chunkStart cfg tokens (j + 1) ≤
          chunkStart cfg tokens (tokens.length / cfg.blockSize) := chunkStart_mono hfull
      rw [chunkStart_succ_of_ends hends] at hmono
      exact hmono

/-- **The load plan of a request with chunks.** The chunks cover what lies before the end of the last
one. The plan for them is proper if and only if the prefix that is stored does not go past the first
chunk. -/
theorem load_plan_iff (cfg : BlendConfig η) (has : η → Bool) (tokens : List Token) :
    (∃ n, ChunksOk cfg tokens (processReq cfg tokens).1 (processReq cfg tokens).2.2.1 n) ∧
    ∀ numComputedTokens matched reqMeta vllmBlockIds,
      getNumNewMatchedTokensBlend cfg has tokens numComputedTokens = some (matched, some reqMeta) →
      reqMeta.blendStage = .cacheBlend → vllmBlockIds.Nodup →
      tokens.length / cfg.blockSize ≤ vllmBlockIds.length →
      (LoadPlanOk cfg has tokens vllmBlockIds reqMeta.pcHitBlockNum
          (generateBlendDispatchMeta reqMeta vllmBlockIds) ↔
        PrefixInFirstChunk cfg has tokens) := by
  refine ⟨exists_chunksOk cfg tokens, ?_⟩
  intro numComputedTokens matched reqMeta vllmBlockIds hmatched hstage hnodup hlen
  obtain ⟨s, segments, hnoted⟩ := noted_of_cacheBlend hmatched hstage
  constructor
  · intro hok
    by_contra hpast
    have hnegative : ∃ c ∈ (generateBlendDispatchMeta reqMeta vllmBlockIds).chunksMeta,
        c.chunkTokensLen < 0 := exists_negative hpast hnoted hstage
    obtain ⟨c, hc, hneg⟩ := hnegative
    have := (hok.chunks c hc).1
    omega
  · intro hprefix
    exact hprefix.loadPlanOk hnoted hstage hnodup hlen

/-- Blocks of one token, where token `0` ends a chunk, and hashes that are the tokens themselves. -/
def BlendConfig.small : BlendConfig (List Token) where
  blockSize := 1
  requestHasher := fun parent block => parent ++ block
  seed := []
  chunkEndTokenId := 0
  blockSize_pos := Nat.one_pos

/-- Eighteen chunks of one block each, and a question. -/
def eighteenChunks : List Token := List.replicate 18 0 ++ [5]

/-- Only the first block is stored as a prefix. -/
theorem load_plan_iff_eighteen : ∃ matched reqMeta,
    getNumNewMatchedTokensBlend .small (fun h => h.length ≤ 1) eighteenChunks 0 =
      some (matched, some reqMeta) ∧
    (LoadPlanOk .small (fun h => h.length ≤ 1) eighteenChunks (List.range 19) reqMeta.pcHitBlockNum
        (generateBlendDispatchMeta reqMeta (List.range 19)) ↔
      PrefixInFirstChunk .small (fun h => h.length ≤ 1) eighteenChunks) := by
  have hsome : (getNumNewMatchedTokensBlend .small (fun h => h.length ≤ 1) eighteenChunks 0).any
      (fun x => x.2.any fun m => m.blendStage = .cacheBlend) = true := by decide +kernel
  rw [Option.any_eq_true] at hsome
  obtain ⟨⟨matched, noted⟩, hmatched, hnoted⟩ := hsome
  rw [Option.any_eq_true] at hnoted
  obtain ⟨reqMeta, rfl, hstage⟩ := hnoted
  exact ⟨matched, reqMeta, hmatched, (load_plan_iff .small _ eighteenChunks).2 0 matched reqMeta _
    hmatched (of_decide_eq_true hstage) List.nodup_range (Nat.le_refl 19)⟩

/-- The first two blocks are stored as a prefix, so that the second chunk's block is in the plan twice,
and the first chunk stays with a negative length. -/
theorem not_loadPlanOk_past : ∃ matched reqMeta,
    getNumNewMatchedTokensBlend .small (fun h => h.length ≤ 2) eighteenChunks 0 =
      some (matched, some reqMeta) ∧
    reqMeta.blendStage = .cacheBlend ∧
    ¬LoadPlanOk .small (fun h => h.length ≤ 2) eighteenChunks (List.range 19) reqMeta.pcHitBlockNum
      (generateBlendDispatchMeta reqMeta (List.range 19)) := by
  have hsome : (getNumNewMatchedTokensBlend .small (fun h => h.length ≤ 2) eighteenChunks 0).any
      (fun x => x.2.any fun m => m.blendStage = .cacheBlend ∧
        ¬(generateBlendDispatchMeta m (List.range 19)).loadBlockIds.2.Nodup) = true := by
    decide +kernel
  rw [Option.any_eq_true] at hsome
  obtain ⟨⟨matched, noted⟩, hmatched, hnoted⟩ := hsome
  rw [Option.any_eq_true] at hnoted
  obtain ⟨reqMeta, rfl, hstage⟩ := hnoted
  obtain ⟨hstage, htwice⟩ := of_decide_eq_true hstage
  exact ⟨matched, reqMeta, hmatched, hstage, fun hok => htwice hok.once⟩

end UnifiedCache.Connector
