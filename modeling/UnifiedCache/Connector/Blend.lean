import UnifiedCache.Connector.Dispatch
import UnifiedCache.Gsa.Blocks

/-!
# Loading chunks of text

`UCMBlendConnector` splits a request at the blocks that end with the end token of a chunk. A request with
chunks loads what is stored of its prefix, and then what is stored of its chunks, where the positions of
the keys have to be shifted.
-/

namespace UnifiedCache.Connector

variable {η : Type}

/-- The configuration of the connector over hashes `η`. -/
structure BlendConfig (η : Type) where
  blockSize : Nat
  /-- `request_hasher` on a parent hash and the tokens of a block. -/
  requestHasher : η → List Token → η
  seed : η
  chunkEndTokenId : Token
  blockSize_pos : 0 < blockSize

/-- `min_blend_threshold`. -/
def minBlendThreshold : Nat := 16

/-- `BlendStage`. -/
inductive BlendStage where
  | buildChunkCache
  | buildPrefixCache
  | cacheBlend
deriving DecidableEq

/-- `list(itertools.compress(data, selectors))`. -/
def compress {α : Type*} (data : List α) (selectors : List Bool) : List α :=
  ((data.zip selectors).filter Prod.snd).map Prod.fst

/-- `ChunkMetaData`. -/
structure ChunkMetaData (η : Type) where
  startTokenDix : Int
  chunkTokensLen : Int
  startBlkIdx : Int
  chunkBlksLen : Int
  cachedStartPosition : Int
  vllmBlkIds : List VllmBlock
  chunkBlksHash : List η
  storeHits : List Bool

namespace ChunkMetaData

variable (c : ChunkMetaData η)

/-- `end_blk_idx`. -/
def endBlkIdx : Int := c.startBlkIdx + c.chunkBlksLen

/-- `position_offset`. -/
def positionOffset : Int := c.startTokenDix - c.cachedStartPosition

/-- `hits_vllm_blk_ids`. -/
def hitsVllmBlkIds : List VllmBlock := compress c.vllmBlkIds c.storeHits

/-- `hits_chunk_blks_hash`. -/
def hitsChunkBlksHash : List η := compress c.chunkBlksHash c.storeHits

/-- `update_meta_partial_pc`. -/
def updateMetaPartialPc (numPcPartBlks blockSize : Nat) : ChunkMetaData η :=
  if 0 < numPcPartBlks then
    { c with
      startTokenDix := c.startTokenDix + numPcPartBlks * blockSize
      chunkTokensLen := c.chunkTokensLen - numPcPartBlks * blockSize
      startBlkIdx := c.startBlkIdx + numPcPartBlks
      chunkBlksLen := c.chunkBlksLen - numPcPartBlks
      chunkBlksHash := c.chunkBlksHash.drop numPcPartBlks
      storeHits := c.storeHits.drop numPcPartBlks
      cachedStartPosition := c.cachedStartPosition + numPcPartBlks * blockSize }
  else c

end ChunkMetaData

/-- `BlendRequestMeta`. -/
structure BlendRequestMeta (η : Type) where
  ucmBlockHashs : List η
  pcHitBlockNum : Nat
  chunksMeta : List (ChunkMetaData η)
  blendStage : BlendStage

/-- `BlendRequestDispatchMeta`. -/
structure BlendRequestDispatchMeta (η : Type) where
  loadBlockIds : List η × List VllmBlock
  dumpBlockIds : List η × List VllmBlock
  chunksMeta : List (ChunkMetaData η)

variable (cfg : BlendConfig η) (has : η → Bool)

/-! ## Chunks of a request -/

/-- What the loop of `_process_req` has got. -/
structure Chunking (η : Type) where
  startBlkIdx : Nat
  startTokenDix : Nat
  chunksMeta : List (ChunkMetaData η)
  reqChunksHashes : List η

/-- One pass of the loop. -/
def splitBlock (allTokenIds : List Token) (acc : Chunking η) (endBlkIdx : Nat) : Chunking η :=
  let endTokenIdx := endBlkIdx * cfg.blockSize + (cfg.blockSize - 1)
  if allTokenIds[endTokenIdx]? = some cfg.chunkEndTokenId then
    let chunkTokenIds := slice allTokenIds acc.startTokenDix (endTokenIdx + 1)
    let chunkBlksHash := generateHash cfg.requestHasher cfg.blockSize chunkTokenIds cfg.seed
    let chunkBlksLen := endBlkIdx - acc.startBlkIdx + 1
    { startBlkIdx := endBlkIdx + 1
      startTokenDix := endTokenIdx + 1
      chunksMeta := acc.chunksMeta ++
        [{ startTokenDix := acc.startTokenDix
           chunkTokensLen := chunkBlksLen * cfg.blockSize
           startBlkIdx := acc.startBlkIdx
           chunkBlksLen
           cachedStartPosition := 0
           vllmBlkIds := []
           chunkBlksHash
           storeHits := [] }]
      reqChunksHashes := acc.reqChunksHashes ++ chunkBlksHash }
  else acc

/-- `_process_req`: the stage, the hashes of the prefix, and the chunks with their hashes. -/
def processReq (allTokenIds : List Token) :
    BlendStage × List η × List (ChunkMetaData η) × List η :=
  let prefixBlockHashes := generateHash cfg.requestHasher cfg.blockSize allTokenIds cfg.seed
  if allTokenIds.getLast? = some cfg.chunkEndTokenId ∧ allTokenIds.length % cfg.blockSize = 0 then
    (.buildChunkCache, prefixBlockHashes, [], [])
  else
    let acc := (List.range (allTokenIds.length / cfg.blockSize)).foldl (splitBlock cfg allTokenIds)
      ⟨0, 0, [], []⟩
    let stage : BlendStage := if acc.chunksMeta ≠ [] then .cacheBlend else .buildPrefixCache
    (stage, prefixBlockHashes, acc.chunksMeta, acc.reqChunksHashes)

/-! ## Lookups -/

/-- `_get_req_chunk_hit`, where the store has these blocks: the hits, and the chunks afterwards. -/
def getReqChunkHit (reqStage : BlendStage) (prefixBlockHashes : List η)
    (reqChunksMeta : List (ChunkMetaData η)) (reqChunksHashes : List η) :
    Option ((Nat × Nat) × List (ChunkMetaData η)) :=
  let pcLookupResults := prefixBlockHashes.map has
  let pcHitBlocks := (pcLookupResults.takeWhile id).length
  if reqStage ≠ .cacheBlend then some ((pcHitBlocks, 0), reqChunksMeta)
  else
    let chunkLookupResults := (reqChunksHashes.drop pcHitBlocks).map has
    let chunkHitBlocks := chunkLookupResults.count true
    let results := pcLookupResults.take pcHitBlocks ++ chunkLookupResults
    let chunks := reqChunksMeta.map fun c =>
      { c with storeHits := Gsa.Blocks.slice results c.startBlkIdx c.endBlkIdx }
    match chunks with
    | [] => none
    | c :: cs =>
      let c := c.updateMetaPartialPc pcHitBlocks cfg.blockSize
      some ((pcHitBlocks, chunkHitBlocks), if c.chunkTokensLen = 0 then cs else c :: cs)

/-- `get_num_new_matched_tokens`: the tokens that are matched, and what is noted of the request. -/
def getNumNewMatchedTokensBlend (allTokenIds : List Token) (numComputedTokens : Nat) :
    Option (Nat × Option (BlendRequestMeta η)) :=
  if numComputedTokens ≠ 0 then none
  else
    let maxBlkNum := allTokenIds.length / cfg.blockSize
    if maxBlkNum = 0 then some (0, none)
    else do
      let (reqStage, prefixBlockHashes, reqChunksMeta, reqChunksHashes) := processReq cfg allTokenIds
      let ((pcHitBlocks, chunkHitBlocks), reqChunksMeta) ←
        getReqChunkHit cfg has reqStage prefixBlockHashes reqChunksMeta reqChunksHashes
      let few := chunkHitBlocks < minBlendThreshold
      let reqStage := if few then .buildPrefixCache else reqStage
      let reqChunksMeta := if few then [] else reqChunksMeta
      let pcHitTokens := pcHitBlocks * cfg.blockSize
      some (if pcHitTokens = allTokenIds.length then pcHitTokens - 1 else pcHitTokens,
        some
          { ucmBlockHashs := if reqStage = .cacheBlend then reqChunksHashes else prefixBlockHashes
            pcHitBlockNum := pcHitBlocks
            chunksMeta := reqChunksMeta
            blendStage := reqStage })

/-! ## Dispatch -/

/-- `_generate_blend_dispatch_meta`. -/
def generateBlendDispatchMeta (reqMeta : BlendRequestMeta η) (vllmBlockIds : List VllmBlock) :
    BlendRequestDispatchMeta η :=
  let loadUcmBlockIds := reqMeta.ucmBlockHashs.take reqMeta.pcHitBlockNum
  let loadVllmBlockIds := vllmBlockIds.take reqMeta.pcHitBlockNum
  if reqMeta.blendStage = .cacheBlend then
    let chunks := reqMeta.chunksMeta.map fun c =>
      { c with vllmBlkIds := Gsa.Blocks.slice vllmBlockIds c.startBlkIdx c.endBlkIdx }
    { loadBlockIds :=
        (loadUcmBlockIds ++ chunks.flatMap ChunkMetaData.hitsChunkBlksHash,
          loadVllmBlockIds ++ chunks.flatMap ChunkMetaData.hitsVllmBlkIds)
      dumpBlockIds := ([], [])
      chunksMeta := chunks }
  else
    { loadBlockIds := (loadUcmBlockIds, loadVllmBlockIds)
      dumpBlockIds := (reqMeta.ucmBlockHashs.drop reqMeta.pcHitBlockNum,
        (vllmBlockIds.take reqMeta.ucmBlockHashs.length).drop reqMeta.pcHitBlockNum)
      chunksMeta := reqMeta.chunksMeta }

/-- `bind_connector_metadata` for one request: the blocks whose keys are shifted, and by how much. -/
def deltaRope (chunksMeta : List (ChunkMetaData η)) : List VllmBlock × List Int :=
  (chunksMeta.flatMap ChunkMetaData.hitsVllmBlkIds,
    chunksMeta.flatMap fun c => List.replicate c.hitsVllmBlkIds.length c.positionOffset)

end UnifiedCache.Connector
