import UnifiedCache.Mindie.PrefixHash

/-!
# Blocks between MindIE and the pool

`put_prefix_kvcache_to_mempool` writes the blocks of a batch that the pool does not have, and
`get_prefix_kvcache_from_mempool` reads those that only the pool has. With sequence and context
parallelism, block `b` of a request is on rank `b % scp_size`, and the row of the request in the block
table of a rank has the blocks of this rank only.
-/

namespace UnifiedCache.Mindie

/-- What `PrefixCachePlugin` reads of itself. -/
structure PrefixCachePlugin where
  scpSize : Nat
  scpRank : Nat
  tpSize : Nat
  tpRank : Nat
  attnDpRank : Nat
  modelName : String

/-- `input_metadata`. An array over the batch is a function of the place, and the counts of a request are
one for each rank, or a single one without this parallelism. -/
structure InputMetadata where
  batchSize : Nat
  isPrefill : Bool
  batchDpRankIds : Nat → Nat
  batchSeqLen : Nat → Nat
  inputIds : List Int64
  maxBlockSize : Nat
  batchBlockTables : Nat → List Nat
  computedBlocks : Option (Nat → List Nat)
  remoteComputedBlocks : Option (Nat → List Nat)

/-- What `put_prefix_kvcache_to_mempool` reads of `infer_context`, for the requests of the batch: the
rows of the tokens, which are longer than the requests, and their lengths. -/
structure InferContext where
  allInputIds : Nat → List Int64
  seqLens : Nat → Nat

namespace PrefixCachePlugin

variable (self : PrefixCachePlugin)

/-- `_init_prefix_key_cache`. -/
def prefixKeySuffix : String :=
  if 1 < self.scpSize then
    "_" ++ toString self.scpRank ++ "_" ++ toString self.scpSize ++ "_" ++ self.modelName
  else "_" ++ toString self.tpRank ++ "_" ++ toString self.tpSize ++ "_" ++ self.modelName

/-- `get_prefix_keys`. -/
def getPrefixKeys (hashValue : UInt64) : String := toString hashValue.toNat ++ self.prefixKeySuffix

/-- The count of a request: the counts of the ranks are added up. -/
def count (counts : Nat → List Nat) (i : Nat) : Nat :=
  if 1 < self.scpSize then (counts i).sum else (counts i).headD 0

/-- The counts of the batch, where `None` is replaced by zeros. -/
def countOrZero (blocks : Option (Nat → List Nat)) (i : Nat) : Nat :=
  (blocks.map fun counts => self.count counts i).getD 0

/-- `range(start, stop, step)`. -/
def pyRange (start stop step : Nat) : List Nat :=
  List.range' start ((stop - start + (step - 1)) / step) step

/-- `first`: the first block from `computed` on that is on this rank. -/
def first (computed : Nat) : Nat :=
  computed + (((self.scpRank : Int) - ((computed % self.scpSize : Nat) : Int)) % self.scpSize).toNat

/-- The two loops over the blocks of a request: what is appended to `prefix_keys` and to
`req_block_ids`. -/
def appendBlocks (prefixHashes : List UInt64) (row : List Nat) (computed stop : Nat) :
    Option (List (String × Nat)) :=
  if 1 < self.scpSize then
    -- `local_idx` counts the turns of the loop, whatever block it begins with.
    (pyRange (self.first computed) stop self.scpSize).zipIdx.mapM fun (b, localIdx) => do
      some (self.getPrefixKeys (← prefixHashes[b]?), ← row[localIdx]?)
  else
    (pyRange computed stop 1).mapM fun b => do
      some (self.getPrefixKeys (← prefixHashes[b]?), ← row[b]?)

/-- `uc_hash_ext.hash_prefix(INVALID_HASH_VALUE, flat, max_block_size, 0, n)`. -/
def hashFlat (flat : List Int64) (maxBlockSize n : Nat) : Option (List UInt64) :=
  (UcHashExt.hashPrefix invalidHashValue flat maxBlockSize 0 n).toOption

/-! ## Reading -/

/-- The loop of `get_prefix_kvcache_from_mempool` at request `i`, whose tokens begin at the offset. -/
def getRequest (metadata : InputMetadata) (batchInputIdsOffset i : Nat) :
    Option (List (String × Nat)) :=
  let seqLen := metadata.batchSeqLen i
  if metadata.batchDpRankIds i ≠ self.attnDpRank then some []
  else
    -- For an empty sequence this is -1 in Python, which is not positive either.
    let fullBlocks := if metadata.maxBlockSize ≠ 0 then (seqLen - 1) / metadata.maxBlockSize else 0
    if fullBlocks = 0 then some []
    else do
      let computed := self.countOrZero metadata.computedBlocks i
      let remoteComputed := self.count (← metadata.remoteComputedBlocks) i
      if remoteComputed ≤ computed ∨ fullBlocks ≤ computed then some []
      else
        let remoteComputed := min remoteComputed fullBlocks
        let flat :=
          (metadata.inputIds.drop batchInputIdsOffset).take (remoteComputed * metadata.maxBlockSize)
        let prefixHashes ← hashFlat flat metadata.maxBlockSize remoteComputed
        self.appendBlocks prefixHashes (metadata.batchBlockTables i) computed remoteComputed

/-- The loop over the batch: every branch moves the offset by `seq_len`. -/
def getLoop (metadata : InputMetadata) : List Nat → Nat → Option (List (String × Nat))
  | [], _ => some []
  | i :: rest, batchInputIdsOffset => do
    let entries ← self.getRequest metadata batchInputIdsOffset i
    let more ← getLoop metadata rest (batchInputIdsOffset + metadata.batchSeqLen i)
    some (entries ++ more)

/-- `get_prefix_kvcache_from_mempool`: the keys, and the blocks they are read into. -/
def getPrefixKvcacheFromMempool (metadata : InputMetadata) : Option (List (String × Nat)) :=
  -- `np.sum(None, axis=1)` raises.
  if 1 < self.scpSize ∧ metadata.remoteComputedBlocks = none then none
  else self.getLoop metadata (List.range metadata.batchSize) 0

/-! ## Writing -/

/-- The loop of `put_prefix_kvcache_to_mempool` at request `i`. -/
def putRequest (metadata : InputMetadata) (inferContext : InferContext) (i : Nat) :
    Option (List (String × Nat)) :=
  if metadata.batchDpRankIds i ≠ self.attnDpRank then some []
  else
    let seqLen := inferContext.seqLens i
    if metadata.maxBlockSize ≠ 0 ∧ seqLen - 1 < metadata.maxBlockSize then some []
    else if metadata.maxBlockSize = 0 then none
    else
      let fullBlocks := (seqLen - 1) / metadata.maxBlockSize
      let computed := self.countOrZero metadata.remoteComputedBlocks i
      if fullBlocks = 0 then some []
      else if fullBlocks ≤ computed then some []
      else do
        let flat := (inferContext.allInputIds i).take (fullBlocks * metadata.maxBlockSize)
        let prefixHashes ← hashFlat flat metadata.maxBlockSize fullBlocks
        self.appendBlocks prefixHashes (metadata.batchBlockTables i) computed fullBlocks

/-- `put_prefix_kvcache_to_mempool`: the keys, and the blocks they are written from. -/
def putPrefixKvcacheToMempool (metadata : InputMetadata) (inferContext : InferContext) :
    Option (List (String × Nat)) :=
  if !metadata.isPrefill ∨
      ∀ i ∈ List.range metadata.batchSize, metadata.batchDpRankIds i ≠ self.attnDpRank then some []
  else do
    let entries ← (List.range metadata.batchSize).mapM
      (self.putRequest metadata inferContext)
    some entries.flatten

end PrefixCachePlugin

end UnifiedCache.Mindie
