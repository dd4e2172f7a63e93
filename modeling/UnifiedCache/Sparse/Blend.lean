import UnifiedCache.Connector.Blend
import UnifiedCache.Lib.Masks
import Mathlib.Algebra.Order.BigOperators.Group.List
import Mathlib.Algebra.Order.Floor.Semiring
import Mathlib.Data.Rat.Floor

/-!
# Pruning the tokens of loaded chunks

In a blend layer the keys of the chunk blocks that were loaded are compared with those that the layer has
just computed for them. Only the tokens that differ most stay in the batch, together with all the tokens
that were not loaded. The queries, the slots and the places where the requests start are cut down
accordingly.
-/

open Lib.Masks

namespace UnifiedCache.Sparse.Blend

open Connector (ChunkMetaData VllmBlock)

/-- What `Blend` is configured with. -/
structure Config where
  blockSize : Nat
  maxModelLen : Nat
  /-- The `ratio` of each blend layer. -/
  computeMeta : String → Option ℚ
  blockSize_pos : 0 < blockSize

/-- `get_num_blks`. -/
def getNumBlks (numTokens : Int) (blockSize : Nat) : Int := (numTokens + blockSize - 1) / blockSize

/-- `round_up`. -/
def roundUp (x y : Nat) : Nat := (x + y - 1) / y * y

/-- `ReqMeta`. -/
structure ReqMeta where
  reqIdx : Nat
  needBlend : Bool
  prefixLen : Int
  prefixBlkLen : Int
  chunksLen : Nat
  chunksBlkLen : Nat
  suffixLen : Int
  suffixBlkLen : Int
  chunkHitMask : List Bool
  chunkHitBlkLen : Nat

/-- `BlendMetaData`. -/
structure BlendMetaData where
  requests : List ReqMeta
  computeMask : List Bool
  /-- A buffer that the hit masks are copied to. -/
  chunkBlksHitMask : List Bool
  queryLens : List Nat
  blendStartReqIdx : Nat
  needReIndex : Bool

/-- `attn_metadata`, with slots `σ`. -/
structure AttnMetadata (σ : Type) where
  queryStartLoc : List Nat
  seqLens : List Nat
  blockTable : List (List VllmBlock)
  slotMapping : List σ
  maxQueryLen : Nat
  numActualTokens : Nat

variable {η α β ω σ : Type}

/-! ## Tensors -/

/-- `x[start:stop].fill_(True)`. -/
def fillTrue (x : List Bool) (start stop : Nat) : List Bool :=
  x.mapIdx fun i b => if start ≤ i ∧ i < stop then true else b

/-- `x.reshape(n, width)`. -/
def reshape {γ : Type} (x : List γ) (n width : Nat) : Option (List (List γ)) :=
  if x.length = n * width then some ((List.range n).map fun j => (x.drop (j * width)).take width)
  else none

/-- `x[mask]`. -/
def index {γ : Type} (x : List γ) (mask : List Bool) : Option (List γ) :=
  if x.length = mask.length then some (keep x mask) else none

/-- `torch.sum((his_k - golden_k).abs(), dim=[1])`, for one row. -/
def rowDiff (his golden : List ℚ) : ℚ := (List.zipWith (fun x y => |x - y|) his golden).sum

/-! ## Metadata -/

namespace BlendMetaData

variable (m : BlendMetaData)

/-- `reset_blend_meta`. -/
def resetBlendMeta (forwardMask : List Bool) (attn : AttnMetadata σ) (numCachedReqs : Nat) :
    Option BlendMetaData := do
  let total ← attn.queryStartLoc.getLast?
  some { m with
    needReIndex := false
    requests := []
    computeMask := forwardMask.take total
    queryLens := List.zipWith (· - ·) attn.queryStartLoc.tail attn.queryStartLoc.dropLast
    blendStartReqIdx := numCachedReqs }

/-- `add_request`. -/
def addRequest (idx : Nat) (chunksMeta : List (ChunkMetaData η)) (seqLens : List Nat)
    (blockSize : Nat) : Option BlendMetaData :=
  match chunksMeta with
  | [] => some m
  | c :: rest => do
    let hitMask := (c :: rest).flatMap ChunkMetaData.storeHits
    let reqIdxBatch := m.blendStartReqIdx + idx
    let chunkHitBlkLen := hitMask.count true
    let chunksLen := hitMask.length * blockSize
    let seqLen ← seqLens[reqIdxBatch]?
    let suffixLen : Int := seqLen - c.startTokenDix - chunksLen
    some { m with
      requests := m.requests ++
        [{ reqIdx := reqIdxBatch
           needBlend := 0 < chunkHitBlkLen
           prefixLen := c.startTokenDix
           prefixBlkLen := getNumBlks c.startTokenDix blockSize
           chunksLen
           chunksBlkLen := hitMask.length
           suffixLen
           suffixBlkLen := getNumBlks suffixLen blockSize
           chunkHitMask := hitMask
           chunkHitBlkLen }] }

/-- `reset_compute_mask`. -/
def resetComputeMask : BlendMetaData :=
  { m with
    computeMask := fillTrue (List.replicate m.computeMask.length false) 0 m.blendStartReqIdx }

/-- `update_req_compute_mask`. -/
def updateReqComputeMask (reqQueryStart reqChunkEnd reqQueryEnd : Nat) (chunkHitMask : List Bool)
    (topKIndices : List Nat) : Option BlendMetaData := do
  let chunks := (m.computeMask.take reqChunkEnd).drop reqQueryStart
  let rows ← reshape chunks chunkHitMask.length (chunks.length / chunkHitMask.length)
  -- the blocks that were missed
  let flat := (List.zipWith (fun hit row => row.map fun b => if hit then b else true)
    chunkHitMask rows).flatten
  if ∃ i ∈ topKIndices, flat.length ≤ i then none
  else
    let flat := topKIndices.foldl (fun (flat : List Bool) i => flat.set i true) flat
    -- the rows are a view of the mask
    let computeMask := m.computeMask.take reqQueryStart ++ flat ++
      m.computeMask.drop (reqQueryStart + flat.length)
    some { m with computeMask := fillTrue computeMask reqChunkEnd reqQueryEnd }

end BlendMetaData

variable (cfg : Config)

/-- `build_sparse_meta`, where the scheduler has sent the chunks of the new requests. -/
def buildSparseMeta (m : BlendMetaData) (forwardMask : List Bool) (attn : AttnMetadata σ)
    (numCachedReqs : Nat) (requestMeta : List (List (ChunkMetaData η))) : Option BlendMetaData := do
  let m ← m.resetBlendMeta forwardMask attn numCachedReqs
  requestMeta.zipIdx.foldlM
    (fun m x => m.addRequest x.2 x.1 attn.seqLens cfg.blockSize) m

/-- `mask_idx`. -/
def maskIdx : List (List Nat) :=
  (List.range (roundUp cfg.maxModelLen cfg.blockSize / cfg.blockSize)).map fun j =>
    List.range' (j * cfg.blockSize) cfg.blockSize

/-- `_update_attn_metadata`. -/
def updateAttnMetadata (m : BlendMetaData) (attn : AttnMetadata σ) : Option (AttnMetadata σ) := do
  let slotMapping ← index attn.slotMapping m.computeMask
  let maxQueryLen ← m.queryLens.max?
  some { attn with
    slotMapping
    queryStartLoc := attn.queryStartLoc.take 1 ++ (m.queryLens.scanl (· + ·) 0).tail
    maxQueryLen
    numActualTokens := m.queryLens.sum }

/-! ## Layers -/

/-- `torch.topk(diff, k).indices`. -/
abbrev TopK := List ℚ → Nat → List Nat

variable (topk : TopK) (kCache : VllmBlock → Nat → List ℚ)

/-- What `attention_begin` does for one request of the metadata, and whether it has pruned any. -/
def blendRequest (ratio : ℚ) (attn : AttnMetadata σ) (key : List (List ℚ))
    (acc : BlendMetaData × Bool) (req : ReqMeta) : Option (BlendMetaData × Bool) := do
  let (m, needUpdate) := acc
  let reqQueryStart ← attn.queryStartLoc[req.reqIdx]?
  let reqQueryEnd ← attn.queryStartLoc[req.reqIdx + 1]?
  if req.needBlend = false then
    some ({ m with computeMask := fillTrue m.computeMask reqQueryStart reqQueryEnd }, needUpdate)
  else
    let reqChunkEnd := reqQueryStart + req.chunksLen
    let blockTable ← attn.blockTable[req.reqIdx]?
    let hisVllmBlkIds := Gsa.Blocks.slice blockTable req.prefixBlkLen
      (req.prefixBlkLen + req.chunksBlkLen)
    if (m.chunkBlksHitMask.take req.chunkHitMask.length).length ≠ req.chunkHitMask.length then none
    else
      let chunkHitMask := req.chunkHitMask
      let chunkBlksHitMask := chunkHitMask ++ m.chunkBlksHitMask.drop chunkHitMask.length
      let hisVllmBlkIds ← index hisVllmBlkIds chunkHitMask
      let hisK := hisVllmBlkIds.flatMap fun v => (List.range cfg.blockSize).map (kCache v)
      let candidateLen := req.chunkHitBlkLen * cfg.blockSize
      let reqKey := (key.take reqChunkEnd).drop reqQueryStart
      let goldenK ← reshape reqKey req.chunksBlkLen cfg.blockSize
      let goldenK ← index goldenK chunkHitMask
      let diffK := List.zipWith rowDiff hisK goldenK.flatten
      let topKNum := ⌊(candidateLen : ℚ) * ratio⌋₊
      if diffK.length < topKNum then none
      else
        -- the places in the keys of the request
        let places ← index ((maskIdx cfg).take req.chunksBlkLen) chunkHitMask
        let topKIndices ← (topk diffK topKNum).mapM fun i => places.flatten[i]?
        let m ← { m with chunkBlksHitMask }.updateReqComputeMask reqQueryStart reqChunkEnd reqQueryEnd
          chunkHitMask topKIndices
        some ({ m with
          queryLens := m.queryLens.modify req.reqIdx (· - (candidateLen - topKNum)) }, true)

/-- What `attention_begin` leaves and returns. -/
structure Begun (α β ω σ : Type) where
  metadata : BlendMetaData
  attn : AttnMetadata σ
  query : List α
  key : List (List ℚ)
  value : List β
  output : Option (List ω)

/-- `attention_begin`. -/
def attentionBegin (layerName : String) (m : BlendMetaData) (attn : AttnMetadata σ) (query : List α)
    (key : List (List ℚ)) (value : List β) (output : Option (List ω)) : Option (Begun α β ω σ) :=
  match cfg.computeMeta layerName with
  | none => some ⟨m, attn, query, key, value, output⟩
  | some ratio => do
    let (m, needUpdate) ← m.requests.foldlM (blendRequest cfg topk kCache ratio attn key)
      (m.resetComputeMask, false)
    if needUpdate then
      let m := { m with needReIndex := true }
      let attn ← updateAttnMetadata m attn
      let indexedQuery ← index query m.computeMask
      let indexedKey ← index key m.computeMask
      let indexedValue ← index value m.computeMask
      let indexedOutput := output.map fun o => o.take (m.computeMask.count true)
      some ⟨m, attn, indexedQuery, indexedKey, indexedValue, indexedOutput⟩
    else some ⟨m, attn, query, key, value, output⟩

/-- `_index_tensor`. -/
def indexTensor {γ : Type} (m : BlendMetaData) (tensor : List γ) : Option (List γ) :=
  if m.needReIndex then index tensor m.computeMask else some tensor

/-- `ffn_begin`. -/
def ffnBegin (m : BlendMetaData) (attn : AttnMetadata σ) (hiddenStates : List α) (residual : List β) :
    Option (List α × List β) :=
  if m.needReIndex ∧ m.computeMask.length = residual.length then do
    let residual ← indexTensor m residual
    some (hiddenStates.take attn.numActualTokens, residual)
  else some (hiddenStates, residual)

/-- `layer_begin`. -/
def layerBegin (m : BlendMetaData) (positions : List ω) (hiddenStates : List α) (residual : List β) :
    Option (List ω × List α × List β) :=
  if positions.length ≠ hiddenStates.length then do
    let positions ← indexTensor m positions
    some (positions, hiddenStates, residual)
  else some (positions, hiddenStates, residual)

/-- `execute_finished`. -/
def executeFinished (m : BlendMetaData) (attn : AttnMetadata σ) (logitsIndices : List Int) :
    List Int :=
  if m.needReIndex then attn.queryStartLoc.tail.map fun (loc : Nat) => (loc : Int) - 1
  else logitsIndices

/-! ## Batches -/

/-- A new request of a batch. Its prefix is loaded from the store up to the first chunk, and it is
scheduled as a whole. -/
structure NewReq (cfg : Config) (η : Type) where
  chunksMeta : List (ChunkMetaData η)
  prefixBlks : Nat
  queryLen : Nat
  blocks : List VllmBlock
  queryLen_pos : 0 < queryLen
  start : ∀ c ∈ chunksMeta.head?, c.startTokenDix = (prefixBlks * cfg.blockSize : Nat)
  chunks_le : (chunksMeta.flatMap ChunkMetaData.storeHits).length * cfg.blockSize ≤ queryLen
  blocks_cover : prefixBlks * cfg.blockSize + queryLen ≤ blocks.length * cfg.blockSize

/-- A batch: the decode requests with one token each, and after them the new requests. -/
structure Batch (cfg : Config) (η σ : Type) where
  /-- The sequence lengths and the blocks of the decode requests. -/
  decodes : List (Nat × List VllmBlock)
  news : List (NewReq cfg η)
  slotMapping : List σ
  slotMapping_length : slotMapping.length = decodes.length + (news.map NewReq.queryLen).sum

/-- What `__init__` makes, with whatever earlier steps have left in it. -/
structure Buffers (cfg : Config) where
  forwardMask : List Bool
  metadata : BlendMetaData
  forwardMask_length : forwardMask.length = cfg.maxModelLen
  hitMask_length : metadata.chunkBlksHitMask.length = roundUp cfg.maxModelLen cfg.blockSize

namespace Batch

variable {cfg} (b : Batch cfg η σ)

/-- The tokens of each request. -/
def queryLens : List Nat := List.replicate b.decodes.length 1 ++ b.news.map NewReq.queryLen

/-- The tokens of the batch. -/
def total : Nat := b.decodes.length + (b.news.map NewReq.queryLen).sum

/-- The metadata that the model runner makes for the batch. -/
def attnMetadata : AttnMetadata σ where
  queryStartLoc := b.queryLens.scanl (· + ·) 0
  seqLens := b.decodes.map Prod.fst ++
    b.news.map fun r => r.prefixBlks * cfg.blockSize + r.queryLen
  blockTable := b.decodes.map Prod.snd ++ b.news.map NewReq.blocks
  slotMapping := b.slotMapping
  maxQueryLen := b.queryLens.foldl max 0
  numActualTokens := b.total

/-- The places of the last tokens of the requests. -/
def logitsIndices : List Int :=
  b.attnMetadata.queryStartLoc.tail.map fun (loc : Nat) => (loc : Int) - 1

end Batch

/-- The tensors of a layer, with one row for each token of the batch. -/
structure Tensors (b : Batch cfg η σ) (α β ω : Type) where
  query : List α
  key : List (List ℚ)
  value : List β
  output : Option (List ω)
  query_length : query.length = b.total
  key_length : key.length = b.total
  value_length : value.length = b.total

/-- `build_sparse_meta`, and `attention_begin` of a layer. -/
def run {b : Batch cfg η σ} (buffers : Buffers cfg) (x : Tensors cfg b α β ω) (layerName : String) :
    Option (Begun α β ω σ) := do
  let m ← buildSparseMeta cfg buffers.metadata buffers.forwardMask b.attnMetadata b.decodes.length
    (b.news.map NewReq.chunksMeta)
  attentionBegin cfg topk kCache layerName m b.attnMetadata x.query x.key x.value x.output

end UnifiedCache.Sparse.Blend
