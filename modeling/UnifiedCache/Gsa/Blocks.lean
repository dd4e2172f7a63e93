import UnifiedCache.Lib.Machine

/-!
# The blocks of a GSA request

At its first decode step the blocks of a long prompt are thinned out: the first ones and the last
ones are kept, and the others go back to the pool. The scheduler does this in `allocate_slots`, for
the number of slots that `estimate_num_slots_sparsed` gives. The worker has its own slices of the
block indices. Prefetch is enabled.
-/

open Lib

namespace UnifiedCache.Gsa.Blocks

/-- `SEG_PREFILL_THRESHOLD`. -/
def segPrefillThreshold : Nat := 8400

/-- `math.ceil(a / b)`. -/
def ceilDiv (a b : Nat) : Nat := (a + b - 1) / b

/-- `gsa_config`. -/
structure GsaConfig where
  blockSize : Nat
  minTopkLen : Nat
  maxTopkLen : Nat
  numPrefetchBlocks : Nat
  initWindowsSize : Nat

/-- `set_config`. -/
def GsaConfig.setConfig (blockSize : Nat) : GsaConfig where
  blockSize := blockSize
  minTopkLen := ceilDiv (32 * 128) blockSize
  maxTopkLen := ceilDiv (48 * 128) blockSize
  numPrefetchBlocks := ceilDiv (1 * 128) blockSize
  initWindowsSize := ceilDiv (1 * 128) blockSize

namespace GsaConfig

variable (cfg : GsaConfig)

/-- `compute_topk_len`. -/
def computeTopkLen (rawSeqLen : Nat) : Nat :=
  -- The product with 0.3 is rounded, but not over an integer where the bounds do not decide.
  let topkLen := ceilDiv (rawSeqLen * 3) 10
  if topkLen < cfg.minTopkLen then min cfg.minTopkLen rawSeqLen
  else if cfg.maxTopkLen < topkLen then cfg.maxTopkLen
  else topkLen

/-- `prefetch_len`. -/
def prefetchLen (blocksLen : Nat) : Nat :=
  min cfg.numPrefetchBlocks (blocksLen - cfg.computeTopkLen blocksLen)

end GsaConfig

/-! ## Worker -/

/-- Where an end of a slice is in a list of this length. -/
def sliceIndex (length : Nat) (i : Int) : Nat :=
  if i < 0 then (length + i).toNat else min i.toNat length

/-- `l[start:stop]`. -/
def slice {α : Type*} (l : List α) (start stop : Int) : List α :=
  (l.take (sliceIndex l.length stop)).drop (sliceIndex l.length start)

variable (cfg : GsaConfig)

/-- `remain_idx` of `kvcache_init_last_chunk`. -/
def kvcacheInitLastChunk (blocksLen : Nat) : List Nat :=
  let remainLen := cfg.computeTopkLen blocksLen
  let prefetchLen := cfg.prefetchLen blocksLen
  let reqIdxList := List.range blocksLen
  slice reqIdxList 0 cfg.initWindowsSize ++
    slice reqIdxList (cfg.initWindowsSize - remainLen - prefetchLen) blocksLen

/-- `remain_idx` and `prefetch_idx` of `_get_sparse_and_free_block`, for a long prompt that has just been
computed. -/
def getSparseAndFreeBlock (blocksLen : Nat) : List Nat × List Nat :=
  let remainLen := cfg.computeTopkLen blocksLen
  let prefetchLen := cfg.prefetchLen blocksLen
  let reqIdxList := List.range blocksLen
  if remainLen < blocksLen then
    (slice reqIdxList 0 cfg.initWindowsSize ++
        slice reqIdxList (cfg.initWindowsSize - remainLen) blocksLen,
      slice reqIdxList (cfg.initWindowsSize - remainLen - prefetchLen)
        (cfg.initWindowsSize - remainLen))
  else (reqIdxList, [])

/-! ## Scheduler -/

/-- A request. -/
structure Request where
  numPromptTokens : Nat
  numTokens : Nat

/-- `num_output_tokens`. -/
def Request.numOutputTokens (request : Request) : Nat := request.numTokens - request.numPromptTokens

/-- `estimate_num_slots_sparsed`; `none` is `INVALID_SLOT`. -/
def estimateNumSlotsSparsed (request : Request) : Option Nat :=
  if request.numOutputTokens = 0 ∨ request.numPromptTokens < cfg.blockSize then none
  else if request.numPromptTokens ≤ segPrefillThreshold then none
  else
    let numPromptBlocks := ceilDiv request.numPromptTokens cfg.blockSize
    let numAllBlocks := ceilDiv request.numTokens cfg.blockSize
    let topkLen := cfg.computeTopkLen numPromptBlocks
    let prefetchLen := cfg.prefetchLen numPromptBlocks
    let numSparseBlocks := numAllBlocks - numPromptBlocks + topkLen + prefetchLen
    let flaw := request.numTokens % cfg.blockSize
    let flaw := if flaw ≠ 0 then cfg.blockSize - flaw else flaw
    some (numSparseBlocks * cfg.blockSize - flaw)

/-- `num_blocks_need`. -/
def numBlocksNeed (request : Request) (numSlotsSparsed : Nat) : Int :=
  if request.numPromptTokens + 1 = request.numTokens ∧ request.numTokens % cfg.blockSize = 1 then
    ceilDiv numSlotsSparsed cfg.blockSize - 1
  else ceilDiv numSlotsSparsed cfg.blockSize

variable {β : Type*}

/-- The loop of `allocate_slots`: the blocks that are kept, and those that are returned. -/
def splitBlocks (allocatedBlocks : List β) (numBlocksNeed : Int) : List β × List β :=
  let keep := fun p : β × Nat =>
    decide ((p.2 : Int) ≥ allocatedBlocks.length - numBlocksNeed + cfg.initWindowsSize ∨
      p.2 < cfg.initWindowsSize)
  ((allocatedBlocks.zipIdx.filter keep).map Prod.fst,
    (allocatedBlocks.zipIdx.filter fun p => !keep p).map Prod.fst)

/-- What `KVCacheManager.allocate_slots` does with the blocks of a request: those it keeps, those it
returns, and how many the request is to have. Only the slots of sparse requests go to `allocate_slots` of
GSA; any other request keeps its blocks. -/
def allocateSlots (request : Request) (allocatedBlocks : List β) : List β × List β × Nat :=
  match estimateNumSlotsSparsed cfg request with
  | none => (allocatedBlocks, [], ceilDiv request.numTokens cfg.blockSize)
  | some numSlotsSparsed =>
    let (kept, returned) := splitBlocks cfg allocatedBlocks (numBlocksNeed cfg request numSlotsSparsed)
    (kept, returned, ceilDiv numSlotsSparsed cfg.blockSize)

/-- A request in decoding. -/
structure State (β : Type*) where
  request : Request
  /-- `req_to_blocks`. -/
  blocks : List β

/-- What happens to the request. -/
inductive Event (β : Type*) where
  /-- It is scheduled and gets these new blocks, and one more token. -/
  | decode (new : List β)
  /-- The pool has too few blocks. -/
  | exhausted

/-- One step. -/
def step (s : State β) : Event β → Option (State β)
  | .decode new =>
    let (kept, _, numBlocks) := allocateSlots cfg s.request s.blocks
    if new.length = numBlocks - kept.length then
      some ⟨{ s.request with numTokens := s.request.numTokens + 1 }, kept ++ new⟩
    else none
  | .exhausted =>
    let (kept, _, numBlocks) := allocateSlots cfg s.request s.blocks
    if kept.length < numBlocks then some { s with blocks := kept } else none

/-- The machine of a request whose prompt has been computed in these blocks and that has its first output
token. -/
def machine (numPromptTokens : Nat) (table : List β) : Machine (State β) (Event β) where
  init s := s = ⟨⟨numPromptTokens, numPromptTokens + 1⟩, table⟩
  step := step cfg

/-- Scheduler and worker keep the same blocks. -/
structure SameBlocks (blockSize numPromptTokens : Nat) (table : List β) : Prop where
  /-- At the first decode step the scheduler keeps the blocks at the worker's indices. -/
  first : ∀ s, (machine (.setConfig blockSize) numPromptTokens table).Reachable s →
    s.request.numTokens = numPromptTokens + 1 →
    (allocateSlots (.setConfig blockSize) s.request s.blocks).1.map some =
      (kvcacheInitLastChunk (.setConfig blockSize) table.length).map (table[·]?)
  /-- These indices are those of the two other slices. -/
  union : ∀ i, i ∈ kvcacheInitLastChunk (.setConfig blockSize) table.length ↔
    i ∈ (getSparseAndFreeBlock (.setConfig blockSize) table.length).1 ∨
      i ∈ (getSparseAndFreeBlock (.setConfig blockSize) table.length).2
  /-- Later nothing is returned. -/
  later : ∀ s, (machine (.setConfig blockSize) numPromptTokens table).Reachable s →
    numPromptTokens + 1 < s.request.numTokens →
    (allocateSlots (.setConfig blockSize) s.request s.blocks).2.1 = []
  /-- The request gets a block when its tokens enter a new one. -/
  grows : ∀ s new s', (machine (.setConfig blockSize) numPromptTokens table).Reachable s →
    (machine (.setConfig blockSize) numPromptTokens table).step s (.decode new) = some s' →
    new.length = if (s.request.numTokens - 1) % blockSize = 0 then 1 else 0

end UnifiedCache.Gsa.Blocks
