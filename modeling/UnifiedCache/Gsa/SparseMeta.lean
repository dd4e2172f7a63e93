import UnifiedCache.Gsa.KeyHashCache
import UnifiedCache.Lib.Pages
import Mathlib.Algebra.Order.Ring.Nat

/-!
# The metadata of a step of GSA on a device

`build_sparse_meta` goes over the requests of a step. It collects those that decode, and for each one
that begins with a prefix from outside the blocks and the slots of this prefix, which are packed into
two buffers: the keys of the prefix are in the cache already, and `cache_k_hash_gqa_cuda` and
`cache_k_hash_mla_cuda` compute their hashes from there.
-/

namespace UnifiedCache.Gsa.OnDevice

/-- What is read of a request. -/
structure Request where
  numScheduledTokens : Nat
  numComputedTokens : Nat
  numPromptTokens : Nat
  /-- Its entry of `num_external_computed_tokens_per_req`. -/
  extTokens : Nat
  /-- Its row of the block table. -/
  blockTable : List Int
deriving DecidableEq, Repr

/-- The requests of a step, by row of the input batch. -/
structure Batch where
  requests : List Request
  /-- The rows in the order of `num_scheduled_tokens`. -/
  order : List Nat
  /-- `is_prefill_flag` before the step, by row. -/
  isPrefillFlag : Nat → Option Bool
  order_perm : order.Perm (List.range requests.length)
  scheduled_pos : ∀ req ∈ requests, 0 < req.numScheduledTokens

namespace Batch

variable (b : Batch)

/-- `query_start_loc`. -/
def queryStartLoc (row : Nat) : Nat := ((b.requests.take row).map (·.numScheduledTokens)).sum

/-- `compute_q_lens`. -/
def computeQLens (row : Nat) : Nat := b.queryStartLoc (row + 1) - b.queryStartLoc row

/-- The requests in their first step with tokens from outside, in the order of the loop. -/
def hits : List Request :=
  b.order.filterMap fun row =>
    b.requests[row]?.filter fun req => b.isPrefillFlag row = none ∧ 0 < req.extTokens

end Batch

/-- The block tables in `attn_metadata`. -/
inductive BlockTables where
  | gqa (blockTable : List (List Int))
  | mla (decode prefill : Option (List (List Int)))
deriving DecidableEq, Repr

/-- `get_block_table_row`. -/
def BlockTables.getBlockTableRow : BlockTables → Nat → Nat → Option (List Int)
  | .gqa blockTable, reqRowId, _ => blockTable[reqRowId]?
  | .mla decode prefill, reqRowId, qlen =>
    let numDecodeRows := (decode.map List.length).getD 0
    if qlen = 1 ∧ reqRowId < numDecodeRows then decode.bind fun rows => rows[reqRowId]?
    else if reqRowId < numDecodeRows then none
    else prefill.bind fun rows => rows[reqRowId - numDecodeRows]?

/-- The sizes of the engine. -/
structure Config where
  blockSize : Nat
  maxNumTokens : Nat
  maxBatchSize : Nat
  blockSize_pos : 0 < blockSize

/-- `cdiv`. -/
def cdiv (a b : Nat) : Nat := (a + b - 1) / b

/-- An `int32` after an operation that wraps. -/
def toInt32 (x : Int) : Int := Int.bmod x UInt32.size

/-- `buf[start:stop] = xs` for tensors: a single value is repeated, other sizes must agree. -/
def assignSlice {α : Type*} (buf : List α) (start stop : Nat) (xs : List α) : Option (List α) :=
  let size := ((buf.take stop).drop start).length
  if size = xs.length then some (buf.take start ++ xs ++ buf.drop stop)
  else match xs with
    | [x] => some (buf.take start ++ List.replicate size x ++ buf.drop stop)
    | _ => none

/-- What `rebuild_prefix_cache_info_for_req` returns. -/
structure PrefixInfo where
  numPrefixTokens : Nat
  numPrefixBlocks : Nat
  prefixBlockIds : List Int
  prefixSlotMapping : List Int
deriving DecidableEq, Repr

/-- `rebuild_prefix_cache_info_for_req`. -/
def rebuildPrefixCacheInfoForReq (cfg : Config) (blockTableRow : List Int)
    (numPromptTokens qlen : Nat) : Option PrefixInfo :=
  if numPromptTokens < qlen then none
  else
    let numPrefixTokens := numPromptTokens - qlen
    if numPrefixTokens = 0 then some ⟨0, 0, [], []⟩
    else do
      let numPrefixBlocks := cdiv numPrefixTokens cfg.blockSize
      let prefixBlockIds := blockTableRow.take numPrefixBlocks
      let tokenIdx := (List.range cfg.maxNumTokens).take numPrefixTokens
      let prefixSlotMapping ← tokenIdx.mapM fun token =>
        let blockIndex := token / cfg.blockSize
        let blockOffset := token - blockIndex * cfg.blockSize
        prefixBlockIds[blockIndex]?.map fun block =>
          toInt32 (block * cfg.blockSize) + (blockOffset : Int)
      some ⟨numPrefixTokens, numPrefixBlocks, prefixBlockIds, prefixSlotMapping⟩

/-- The two buffers and what is in use of them. -/
structure PrefixBufs where
  prefixSlotMappingBuf : List Int
  prefixBlockIdsBuf : List Int
  allPrefixTokens : Nat
  allPrefixBlocks : Nat
  numPcHit : Nat
deriving DecidableEq, Repr

namespace PrefixBufs

variable (pc : PrefixBufs)

/-- Nothing is in use. -/
def clear (slotBuf idBuf : List Int) : PrefixBufs := ⟨slotBuf, idBuf, 0, 0, 0⟩

/-- A prefix is appended to the buffers. -/
def append (info : PrefixInfo) : Option PrefixBufs := do
  let slots ← assignSlice pc.prefixSlotMappingBuf pc.allPrefixTokens
    (pc.allPrefixTokens + info.numPrefixTokens) info.prefixSlotMapping
  let ids ← assignSlice pc.prefixBlockIdsBuf pc.allPrefixBlocks
    (pc.allPrefixBlocks + info.numPrefixBlocks) info.prefixBlockIds
  some {
    prefixSlotMappingBuf := slots
    prefixBlockIdsBuf := ids
    allPrefixTokens := pc.allPrefixTokens + info.numPrefixTokens
    allPrefixBlocks := pc.allPrefixBlocks + info.numPrefixBlocks
    numPcHit := pc.numPcHit + 1 }

/-- `prefix_slot_mapping`. -/
def prefixSlotMapping : List Int := pc.prefixSlotMappingBuf.take pc.allPrefixTokens

/-- `prefix_block_ids`. -/
def prefixBlockIds : List Int := pc.prefixBlockIdsBuf.take pc.allPrefixBlocks

end PrefixBufs

/-- What the loop of `build_sparse_meta` changes. -/
structure SparseMeta where
  isPrefillFlag : Nat → Option Bool
  /-- The entries that have been written to `decode_req_ids_buf`. -/
  decodeReqIds : List Nat
  pc : PrefixBufs

/-- An entry of `is_prefill_flag`. -/
def SparseMeta.setFlag (m : SparseMeta) (row : Nat) (flag : Bool) : SparseMeta :=
  { m with isPrefillFlag := Function.update m.isPrefillFlag row (some flag) }

/-- One round of the loop. -/
def SparseMeta.step (cfg : Config) (tables : BlockTables) (b : Batch) (m : SparseMeta) (row : Nat) :
    Option SparseMeta := do
  let req ← b.requests[row]?
  let flag := m.isPrefillFlag row
  let m := if flag = some false then { m with decodeReqIds := m.decodeReqIds ++ [row] } else m
  let m ←
    if flag = none then
      let m := m.setFlag row true
      if 0 < req.extTokens then do
        let blockTableRow ← tables.getBlockTableRow row (b.computeQLens row)
        let info ← rebuildPrefixCacheInfoForReq cfg blockTableRow req.numPromptTokens
          (b.computeQLens row)
        let pc ← m.pc.append info
        some { m with pc := pc }
      else some m
    else some m
  if flag ≠ some false ∧ req.numPromptTokens ≤ req.numComputedTokens + req.numScheduledTokens then
    some (m.setFlag row false)
  else some m

/-- The loop of `build_sparse_meta`, with what is in the two buffers. -/
def buildSparseMeta (cfg : Config) (tables : BlockTables) (b : Batch) (slotBuf idBuf : List Int) :
    Option SparseMeta :=
  b.order.foldlM (SparseMeta.step cfg tables b) ⟨b.isPrefillFlag, [], .clear slotBuf idBuf⟩

/-! ## Hashing the prefixes again -/

section Rehash

variable {κ : Type*} (cfg : Config) (pc : PrefixBufs) (cache : Int → Nat → κ)

/-- `k_cache[prefix_block_ids]`, one token after the other. -/
def PrefixBufs.keyRows : List κ :=
  pc.prefixBlockIds.flatMap fun block => (List.range cfg.blockSize).map (cache block)

/-- The second half of `cache_k_hash_gqa_cuda` and `cache_k_hash_mla_cuda`: the slots of which a hash is
written, with the key it is the hash of. -/
def PrefixBufs.rehash : List (Int × κ) :=
  if 0 < pc.numPcHit then
    pc.prefixSlotMapping.zip ((pc.keyRows cfg cache).take pc.prefixSlotMapping.length)
  else []

/-- The key in a slot of the cache. -/
def keyAt (slot : Int) : κ := cache (slot / cfg.blockSize) (slot % cfg.blockSize).toNat

end Rehash

/-- The slot of a token. -/
def Request.slot (cfg : Config) (req : Request) (token : Nat) : Int :=
  req.blockTable.getD (token / cfg.blockSize) 0 * cfg.blockSize + (token % cfg.blockSize : Nat)

/-- What the two buffers are for. -/
structure Aligned (cfg : Config) (b : Batch) (pc : PrefixBufs) : Prop where
  slots : pc.prefixSlotMapping =
    b.hits.flatMap fun req => (List.range req.numComputedTokens).map (req.slot cfg)
  keys : ∀ {κ : Type} (cache : Int → Nat → κ), ∀ i < pc.prefixSlotMapping.length,
    (pc.keyRows cfg cache)[i]? = pc.prefixSlotMapping[i]?.map (keyAt cfg cache)

/-- What the engine guarantees. The row of a request is long enough for the longest sequence. -/
structure WellFormed (cfg : Config) (tables : BlockTables) (b : Batch) (slotBuf idBuf : List Int) :
    Prop where
  requests_le : b.requests.length ≤ cfg.maxBatchSize
  tables : ∀ row req, b.requests[row]? = some req →
    tables.getBlockTableRow row req.numScheduledTokens = some req.blockTable
  computed_pos : ∀ req ∈ b.hits, 0 < req.numComputedTokens
  prompt : ∀ req ∈ b.hits, req.numComputedTokens + req.numScheduledTokens ≤ req.numPromptTokens
  prompt_le : ∀ req ∈ b.hits, req.numPromptTokens ≤ cfg.maxNumTokens
  blockTable_length : ∀ req ∈ b.hits, cfg.maxNumTokens ≤ req.blockTable.length * cfg.blockSize
  blockTable_nonneg : ∀ req ∈ b.hits, ∀ block ∈ req.blockTable, 0 ≤ block
  slotBuf : slotBuf.length = cfg.maxNumTokens * cfg.maxBatchSize
  idBuf : idBuf.length = cdiv (cfg.maxNumTokens * cfg.maxBatchSize) cfg.blockSize

/-- All of the prompt but the prefix is in this step, every prefix but the last one fills its blocks,
and the slots of the blocks fit an `int32`. -/
structure Batch.Packs (cfg : Config) (b : Batch) : Prop where
  whole : ∀ req ∈ b.hits, req.numComputedTokens + req.numScheduledTokens = req.numPromptTokens
  full : ∀ req ∈ b.hits.dropLast, req.numComputedTokens % cfg.blockSize = 0
  small : ∀ req ∈ b.hits, ∀ token < req.numComputedTokens,
    req.blockTable.getD (token / cfg.blockSize) 0 * cfg.blockSize < int32Limit

end UnifiedCache.Gsa.OnDevice
