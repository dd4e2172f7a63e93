import UnifiedCache.Lib.BlockCache
import UnifiedCache.Lib.Dict
import Mathlib.Algebra.Order.Floor.Div
import Mathlib.Data.Rat.Floor

/-!
# KVStar over several steps

The worker's side of KVStar for one request and one layer. During the prefill the queries of the last
tokens are put aside. At the first decode step the init and the local window go back into the table, and
the blocks between them become a swap area. The queries of every `retrieval_stride` decode steps are a
group: a retrieval is started with it, and two groups later the blocks it has chosen are loaded.

A step that raises is `none`.
-/

open Lib Lib.BlockCache

namespace UnifiedCache.Kvstar

/-- `kvstar_multistep_cfg`, with the size of a block. -/
structure Config where
  blockSize : Nat
  initWindowSz : Nat
  localWindowSz : Nat
  /-- `n * sparse_ratio`, the rounded product of doubles. -/
  mulSparseRatio : Nat → ℚ
  retrievalStride : Nat
  blockSize_pos : 0 < blockSize
  /-- The ratio is in [0, 1], and rounding is monotone and exact at the ends. -/
  mulSparseRatio_nonneg : ∀ n, 0 ≤ mulSparseRatio n
  mulSparseRatio_le : ∀ n : Nat, mulSparseRatio n ≤ n
  retrievalStride_pos : 0 < retrievalStride

/-- Windows of one block each, and half of the blocks between them. -/
def Config.half (blockSize retrievalStride : Nat) (hblock : 0 < blockSize)
    (hstride : 0 < retrievalStride) : Config where
  blockSize := blockSize
  initWindowSz := 1
  localWindowSz := 1
  mulSparseRatio n := Rat.divInt n 2
  retrievalStride := retrievalStride
  blockSize_pos := hblock
  mulSparseRatio_nonneg n := Rat.divInt_nonneg (Int.natCast_nonneg n) (Int.zero_le_ofNat 2)
  mulSparseRatio_le n := by
    rw [Rat.divInt_eq_div]
    exact half_le_self (Nat.cast_nonneg n)
  retrievalStride_pos := hstride

/-- `ReqStage`. -/
inductive ReqStage where
  | prefill
  | decode
deriving DecidableEq

/-- The names of groups of queries: `"prefill"`, and `"decode"` with a step. -/
inductive Record where
  | prefill
  | decode (step : Int)
deriving DecidableEq

/-- The two tensors of a layer. -/
inductive Tensor where
  | key
  | value
deriving DecidableEq

/-- What a worker is told about a request in a step. -/
structure ReqMeta (η : Type) where
  numPromptTokens : Nat
  numOutputTokens : Nat
  numScheduledTokens : Nat
  numComputedTokens : Nat
  vllmBlockIds : List Nat
  queryStartLoc : Nat
  queryLen : Nat
  blockHashes : List η

variable {Q η β : Type}

namespace ReqMeta

variable (cfg : Config) (m : ReqMeta η)

/-- `step`. -/
def step : Nat := m.numOutputTokens

/-- `stage`. -/
def stage : ReqStage := if 0 < m.numOutputTokens then .decode else .prefill

/-- `is_last_chunk`. -/
def isLastChunk : Bool := m.numPromptTokens ≤ m.numComputedTokens + m.numScheduledTokens

/-- `query_offload_info`. -/
def queryOffloadInfo : Option (List Int) :=
  if m.stage = .prefill then
    let endPos : Int := m.numComputedTokens + m.numScheduledTokens
    if endPos < (m.numPromptTokens : Int) - cfg.retrievalStride then none
    else
      let validTokenEndPos := cfg.retrievalStride - ((m.numPromptTokens : Int) - endPos)
      let validTokenNum := min validTokenEndPos m.numScheduledTokens
      let validTokenStartPos := validTokenEndPos - validTokenNum
      some ((List.range (validTokenEndPos - validTokenStartPos).toNat).map fun i : Nat =>
        validTokenStartPos + i)
  else some [(m.numOutputTokens % cfg.retrievalStride : Nat)]

end ReqMeta

/-- What `AsyncRetrieveByCPU` is given. -/
structure RetrieveTask (Q : Type) where
  queryGroup : List Q
  /-- `blk_repre.shape[0]`. -/
  numBlocks : Nat
  topk : Nat

/-- What has happened; no code reads it. -/
inductive Action (Q : Type) where
  /-- A query has been put aside. -/
  | save (record : Record) (slot : Int) (query : Q)
  /-- `retrieval_async`: the group as it is, and the task if there is one. -/
  | submit (record : Record) (group : Option (List (Option Q))) (task : Option Nat)
  /-- `load_retrieve_result_async` needs the result of a record. -/
  | lookUp (record : Record)
  /-- `GetTaskResult`. -/
  | fetch (record : Record) (task : Nat)

/-- `ReqPerLayerState`. -/
structure State (Q η β : Type) where
  /-- `block_size` is set. -/
  registered : Bool
  blockHashes : List η
  /-- `blk_repre.shape[0]`; `none` is `None`. -/
  blkRepre : Option Nat
  initWindow : Option (List β × List β)
  localWindow : Option (List β × List β)
  standbyQueryGroup : Record → Option (List (Option Q))
  doRetrieveQueryGroup : Record → Option (List Q)
  stepGroupRetrieveResult : Record → Option (List η)
  taskWaiter : Record → Option Nat
  /-- `layer_wise_pre_swap_area_block_hashes`. -/
  preSwapAreaBlockHashes : List (Nat × η)
  /-- Tasks of the store, with what they load. The keys are hashes of what stands here. -/
  blkTransTasks : List ((List η × Tensor) × List (η × Nat))
  kCache : Nat → β
  vCache : Nat → β
  /-- The tasks that have been given to `kvstar_retrieve`, by number. -/
  retrieveTasks : List (RetrieveTask Q)
  trace : List (Action Q)

/-- A new `ReqPerLayerState`, where the cache has these contents. -/
def State.new (kCache vCache : Nat → β) : State Q η β where
  registered := false
  blockHashes := []
  blkRepre := some 0
  initWindow := none
  localWindow := none
  standbyQueryGroup _ := none
  doRetrieveQueryGroup _ := none
  stepGroupRetrieveResult _ := none
  taskWaiter _ := none
  preSwapAreaBlockHashes := []
  blkTransTasks := []
  kCache := kCache
  vCache := vCache
  retrieveTasks := []
  trace := []

/-- What is outside: the blocks in the store, and what `GetTaskResult` gives for a task (`none` if its
status is not `SUCCESS`). -/
structure Outside (Q η β : Type) where
  keyData : η → β
  valueData : η → β
  retrieve : RetrieveTask Q → Option (List Nat)

/-! ## Lists of Python -/

/-- `l[i] = x`. -/
def setItem {α : Type*} (l : List α) (i : Int) (x : α) : Option (List α) :=
  if 0 ≤ i ∧ i < l.length then some (l.set i.toNat x)
  else if i < 0 ∧ -(l.length : Int) ≤ i then some (l.set (l.length + i).toNat x)
  else none

/-- `l[-n:]`; all of `l` for 0. -/
def lastItems {α : Type*} (n : Nat) (l : List α) : List α :=
  if n = 0 then l else l.drop (l.length - n)

/-- `l.remove(x)`. -/
def remove {α : Type*} [DecidableEq α] (l : List α) (x : α) : Option (List α) :=
  if x ∈ l then some (l.erase x) else none

variable (cfg : Config) (outside : Outside Q η β) (s : State Q η β) (m : ReqMeta η)

/-! ## Groups of queries -/

/-- `get_retrieve_record`. -/
def getRetrieveRecord (curStep : Nat) : Record :=
  if curStep = 1 then .prefill else .decode ((curStep : Int) - cfg.retrievalStride)

/-- `get_decode_step_record`. -/
def getDecodeStepRecord : Record × Nat :=
  (.decode (((m.step - 1) / cfg.retrievalStride * cfg.retrievalStride + 1 : Nat) : Int),
    (m.step - 1) % cfg.retrievalStride)

/-- `save_to_standby`. -/
def saveToStandby (groupRecord : Record) (inQueryGroupIdx : Int) (queryRelativeIdx : Nat)
    (tokensToOffload : List Q) : Option (State Q η β) := do
  let group := (s.standbyQueryGroup groupRecord).getD (List.replicate cfg.retrievalStride none)
  let query ← tokensToOffload[queryRelativeIdx]?
  let group ← setItem group inQueryGroupIdx (some query)
  some { s with
    standbyQueryGroup := Function.update s.standbyQueryGroup groupRecord (some group)
    trace := s.trace ++ [.save groupRecord inQueryGroupIdx query] }

/-- `offload_prefill_query`. `None` and the empty list are both false. -/
def offloadPrefillQuery (query : List Q) : Option (State Q η β) :=
  let info := (m.queryOffloadInfo cfg).getD []
  if info = [] then some s
  else if m.queryLen < info.length then none
  else
    let stop := m.queryStartLoc + m.queryLen
    let tokensToOffload := (query.take stop).drop (stop - info.length)
    info.zipIdx.foldlM (fun s p => saveToStandby cfg s .prefill p.1 p.2 tokensToOffload) s

/-- `retrieval_async` on the CPU. -/
def retrievalAsync (curStep topk : Nat) : Option (State Q η β) :=
  let record := getRetrieveRecord cfg curStep
  if topk = 0 then
    some { s with
      stepGroupRetrieveResult := Function.update s.stepGroupRetrieveResult record (some [])
      trace := s.trace ++ [.submit record (s.standbyQueryGroup record) none] }
  else do
    let group ← s.standbyQueryGroup record
    let queryGroup := group.filterMap id
    -- There is nothing to stack in an empty group.
    if queryGroup.isEmpty then none
    else
      let numBlocks ← s.blkRepre
      some { s with
        doRetrieveQueryGroup := Function.update s.doRetrieveQueryGroup record (some queryGroup)
        taskWaiter := Function.update s.taskWaiter record (some s.retrieveTasks.length)
        retrieveTasks := s.retrieveTasks ++ [⟨queryGroup, numBlocks, topk⟩]
        trace := s.trace ++ [.submit record (some group) (some s.retrieveTasks.length)] }

/-! ## Windows -/

/-- The number of blocks that `extract_block_repre` gives, `none` for `None`. -/
def extractBlockRepre (vllmBlockIds : List Nat) : Option (Option Nat) :=
  match vllmBlockIds.getLast? with
  | none => none
  | some last => some (if last < 2 then none else some vllmBlockIds.length)

/-- The number of rows of `blk_repre[init_window_sz:-local_window_sz]`. -/
def innerBlocks (numBlocks : Nat) : Nat :=
  (if cfg.localWindowSz = 0 then 0 else numBlocks - cfg.localWindowSz) - cfg.initWindowSz

/-- `construct_init_and_local_window`. -/
def constructInitAndLocalWindow : State Q η β :=
  let initIds := m.vllmBlockIds.take cfg.initWindowSz
  let localWindowSz := min cfg.localWindowSz (m.vllmBlockIds.drop cfg.initWindowSz).length
  let localIds := lastItems localWindowSz m.vllmBlockIds
  { s with
    initWindow := some (initIds.map s.kCache, initIds.map s.vCache)
    localWindow :=
      if 0 < localWindowSz then some (localIds.map s.kCache, localIds.map s.vCache)
      else s.localWindow }

/-- `prepare_init_and_local_window`. -/
def prepareInitAndLocalWindow : Option (State Q η β) := do
  let initWindow ← s.initWindow
  let initIds := m.vllmBlockIds.take cfg.initWindowSz
  let kCache ← indexPut s.kCache initIds initWindow.1
  let vCache ← indexPut s.vCache initIds initWindow.2
  match s.localWindow with
  | none => some { s with kCache, vCache }
  | some localWindow =>
    let localIds := lastItems cfg.localWindowSz m.vllmBlockIds
    let kCache ← indexPut kCache localIds localWindow.1
    let vCache ← indexPut vCache localIds localWindow.2
    some { s with kCache, vCache }

/-- `compute_block_repre`; `num_blocks_dumped` stays 0. -/
def computeBlockRepre (numBlocksNeedDump : Nat) : Option (State Q η β) :=
  if m.stage = .prefill ∧ m.isLastChunk = true then do
    let blkRepre ← extractBlockRepre (m.vllmBlockIds.take numBlocksNeedDump)
    let blkRepre := blkRepre.bind fun n => if n ≤ 2 then none else some (innerBlocks cfg n)
    some (constructInitAndLocalWindow cfg { s with blkRepre } m)
  else some s

/-! ## The swap area -/

/-- `get_retrieve_candidate_block_ids`. -/
def getRetrieveCandidateBlockIds : Option (List Nat) :=
  s.blkRepre.map fun n : Nat =>
    (m.vllmBlockIds.take (⌈cfg.mulSparseRatio n⌉₊ + cfg.initWindowSz)).drop cfg.initWindowSz

/-- `launch_transfer_task`, with `load`. -/
def launchTransferTask [DecidableEq η] (blockHashes : List η) (vllmBlockIds : List Nat) :
    State Q η β :=
  let tasks := Dict.set s.blkTransTasks (blockHashes, .key) (blockHashes.zip vllmBlockIds)
  { s with blkTransTasks := Dict.set tasks (blockHashes, .value) (blockHashes.zip vllmBlockIds) }

/-- `store_instance.wait` for a task that succeeds. -/
def waitTask (s : State Q η β) (task : (List η × Tensor) × List (η × Nat)) : State Q η β :=
  let ids := task.2.map Prod.snd
  match task.1.2 with
  | .key => { s with kCache := writeAll s.kCache ids (task.2.map fun p => outside.keyData p.1) }
  | .value => { s with vCache := writeAll s.vCache ids (task.2.map fun p => outside.valueData p.1) }

/-- `wait_for_blk_transfer_task_done`. -/
def waitForBlkTransferTaskDone : State Q η β :=
  { s.blkTransTasks.foldl (waitTask outside) s with blkTransTasks := [] }

/-- `need_retrieve_record`. -/
def needRetrieveRecord (loadStep : Nat) : Record :=
  if loadStep ≤ cfg.retrievalStride * 2 then .prefill
  else
    let curGroupIdx := loadStep ⌈/⌉ cfg.retrievalStride
    .decode (((curGroupIdx : Int) - 3) * cfg.retrievalStride + 1)

/-- The first part of `load_retrieve_result_async`: the result of the record is there afterwards. -/
def fetchRetrieveResult (record : Record) : Option (State Q η β) :=
  let s : State Q η β := { s with trace := s.trace ++ [.lookUp record] }
  if (s.stepGroupRetrieveResult record).isNone then do
    let taskId ← s.taskWaiter record
    let task ← s.retrieveTasks[taskId]?
    let _ ← s.standbyQueryGroup record
    let _ ← s.doRetrieveQueryGroup record
    let topkIndices ← outside.retrieve task
    let selectBlkHashes ← topkIndices.mapM fun i => s.blockHashes[i + cfg.initWindowSz]?
    some { s with
      standbyQueryGroup := Function.update s.standbyQueryGroup record none
      doRetrieveQueryGroup := Function.update s.doRetrieveQueryGroup record none
      stepGroupRetrieveResult :=
        Function.update s.stepGroupRetrieveResult record (some selectBlkHashes)
      trace := s.trace ++ [.fetch record taskId] }
  else some s

/-- What the loop of `load_retrieve_result_async` over the swap area has got. -/
structure Matching (η : Type) where
  /-- `already_matched_record`. -/
  alreadyMatchedRecord : List (Nat × η)
  candidateSwapVllmBlockIds : List Nat
  retrieveResultHashList : List η

/-- One pass of the loop. -/
def matchBlock [DecidableEq η] (pre : List (Nat × η)) (acc : Matching η) (logicBlkId : Nat) :
    Option (Matching η) :=
  match Dict.get? pre logicBlkId with
  | none => some acc
  | some hash =>
    if hash ∈ acc.retrieveResultHashList then do
      let candidates ← remove acc.candidateSwapVllmBlockIds logicBlkId
      let hashes ← remove acc.retrieveResultHashList hash
      some ⟨Dict.set acc.alreadyMatchedRecord logicBlkId hash, candidates, hashes⟩
    else some acc

/-- The rest of `load_retrieve_result_async`: the new record of the swap area, and the hashes and the
blocks that are to be loaded. -/
def updateSwapArea [DecidableEq η] (pre : List (Nat × η)) (candidates : List Nat)
    (hashes : List η) : Option (List (Nat × η) × List η × List Nat) :=
  if pre.length = 0 then some (Dict.ofPairs (candidates.zip hashes), hashes, candidates)
  else do
    let r ← candidates.foldlM (matchBlock pre) ⟨[], candidates, hashes⟩
    let pairs := r.candidateSwapVllmBlockIds.zip r.retrieveResultHashList
    some (pairs.foldl (fun d p => Dict.set d p.1 p.2) r.alreadyMatchedRecord,
      r.retrieveResultHashList, r.candidateSwapVllmBlockIds)

/-- The swap area gets the blocks of the result. -/
def swapIn [DecidableEq η] (candidates : List Nat) (hashes : List η) : Option (State Q η β) := do
  let (record, toLoad, ids) ← updateSwapArea s.preSwapAreaBlockHashes candidates hashes
  let s := { s with preSwapAreaBlockHashes := record }
  some (if 0 < toLoad.length then launchTransferTask s toLoad ids else s)

/-- `load_retrieve_result_async`. -/
def loadRetrieveResultAsync [DecidableEq η] (loadStep : Nat) (candidates : List Nat) :
    Option (State Q η β) := do
  let record := needRetrieveRecord cfg loadStep
  let s ← fetchRetrieveResult cfg outside s record
  let hashes ← s.stepGroupRetrieveResult record
  if record ≠ .prefill ∨ loadStep = 1 then swapIn s candidates hashes else some s

/-! ## Steps -/

/-- `attention_begin` at the last step of a group: its retrieval is started. -/
def retrieveGroup : Option (State Q η β) :=
  if m.step % cfg.retrievalStride = 0 then do
    let candidates ← getRetrieveCandidateBlockIds cfg s m
    retrievalAsync cfg s (m.step + 1) candidates.length
  else some s

/-- `attention_begin` at the first decode step. -/
def beginDecode [DecidableEq η] : Option (State Q η β) :=
  if m.step = 1 then do
    let s ← prepareInitAndLocalWindow cfg s m
    let candidates ← getRetrieveCandidateBlockIds cfg s m
    let s ← retrievalAsync cfg (waitForBlkTransferTaskDone outside s) m.step candidates.length
    loadRetrieveResultAsync cfg outside s m.step candidates
  else some s

/-- `attention_begin` in decoding, once `blk_repre` is there. -/
def decodeBegin [DecidableEq η] (query : List Q) : Option (State Q η β) := do
  let (groupRecord, stepIdx) := getDecodeStepRecord cfg m
  let s ← saveToStandby cfg s groupRecord stepIdx m.queryStartLoc query
  let s ← retrieveGroup cfg s m
  let s ← beginDecode cfg outside s m
  if m.step % cfg.retrievalStride = 1 then some (waitForBlkTransferTaskDone outside s) else some s

/-- `attention_begin`. -/
def attentionBegin [DecidableEq η] (query : List Q) : Option (State Q η β) :=
  if m.stage = .prefill then offloadPrefillQuery cfg s m query
  else if s.blkRepre.isNone then some s
  else if m.queryLen ≠ 1 then none
  else decodeBegin cfg outside s m query

/-- `maybe_register_kv_cache`. -/
def maybeRegisterKvCache : State Q η β :=
  if s.registered then s else { s with registered := true, blockHashes := m.blockHashes }

/-- `attention_finished`. -/
def attentionFinished [DecidableEq η] : Option (State Q η β) :=
  if m.stage ≠ .prefill then
    if cfg.retrievalStride * 2 ≤ m.step ∧ m.step % cfg.retrievalStride = 0 then do
      let candidates ← getRetrieveCandidateBlockIds cfg s m
      loadRetrieveResultAsync cfg outside s (m.step + 1) candidates
    else some s
  else
    let s := maybeRegisterKvCache s m
    computeBlockRepre cfg s m ((m.numComputedTokens + m.numScheduledTokens) / cfg.blockSize)

/-- A step of the layer. -/
def forward [DecidableEq η] (query : List Q) : Option (State Q η β) := do
  let s ← attentionBegin cfg outside s m query
  attentionFinished cfg outside s m

/-! ## Scheduler -/

/-- `estimate_num_slots_sparsed` for a request with output tokens. -/
def estimateNumSlotsSparsed (numPromptTokens numTokens : Nat) : Nat :=
  let numPrefillFullyBlock := numPromptTokens / cfg.blockSize
  let numPrefillKeepFixedBlk := min (cfg.initWindowSz + cfg.localWindowSz) numPrefillFullyBlock
  let numSparseSavedFullyBlk :=
    ⌈cfg.mulSparseRatio (numPrefillFullyBlock - numPrefillKeepFixedBlk)⌉₊
  let numBlocksDenseTotal := numTokens ⌈/⌉ cfg.blockSize
  let numBlocksBeCompressedPrefill :=
    numPrefillFullyBlock - numSparseSavedFullyBlk - numPrefillKeepFixedBlk
  let numBlocksThisStepBudget := numBlocksDenseTotal - numBlocksBeCompressedPrefill
  let tailBlkValidTokenNum := numTokens % cfg.blockSize
  if tailBlkValidTokenNum ≠ 0 then
    (numBlocksThisStepBudget - 1) * cfg.blockSize + tailBlkValidTokenNum
  else numBlocksThisStepBudget * cfg.blockSize

/-- `allocate_slots`: the blocks of the request afterwards, if the pool gives these new ones. -/
def allocateSlots (numSlotsSparsed : Nat) (allocatedBlocks newBlocks : List Nat) :
    Option (List Nat) :=
  let numBlocksNeed := numSlotsSparsed ⌈/⌉ cfg.blockSize
  let keptBlocks := (allocatedBlocks.zipIdx.filter fun p =>
    ((allocatedBlocks.length : Int) - numBlocksNeed ≤ p.2 : Bool)).map Prod.fst
  if newBlocks.length = numBlocksNeed - keptBlocks.length then some (keptBlocks ++ newBlocks)
  else none

/-! ## Runs -/

/-- A chunk of the prefill as it is scheduled. -/
structure Chunk (Q : Type) where
  numScheduledTokens : Nat
  vllmBlockIds : List Nat
  queryStartLoc : Nat
  /-- The rows of the batch. -/
  query : List Q

/-- A decode step as it is scheduled. -/
structure DecodeStep (Q : Type) where
  vllmBlockIds : List Nat
  queryStartLoc : Nat
  /-- The rows of the batch. -/
  query : List Q

/-- The request as a whole: its prompt. -/
structure Prompt (η : Type) where
  numPromptTokens : Nat
  blockHashes : List η

variable (prompt : Prompt η)

/-- The `ReqMeta` of a chunk. -/
def Chunk.reqMeta (numComputedTokens : Nat) (chunk : Chunk Q) : ReqMeta η where
  numPromptTokens := prompt.numPromptTokens
  numOutputTokens := 0
  numScheduledTokens := chunk.numScheduledTokens
  numComputedTokens := numComputedTokens
  vllmBlockIds := chunk.vllmBlockIds
  queryStartLoc := chunk.queryStartLoc
  queryLen := chunk.numScheduledTokens
  blockHashes := prompt.blockHashes

/-- The `ReqMeta` of a decode step: one token. -/
def DecodeStep.reqMeta (numOutputTokens : Nat) (d : DecodeStep Q) : ReqMeta η where
  numPromptTokens := prompt.numPromptTokens
  numOutputTokens := numOutputTokens
  numScheduledTokens := 1
  numComputedTokens := prompt.numPromptTokens + numOutputTokens - 1
  vllmBlockIds := d.vllmBlockIds
  queryStartLoc := d.queryStartLoc
  queryLen := 1
  blockHashes := prompt.blockHashes

/-- The prefill: only what `offload_prefill_query` does. -/
def offloadChunks (s : State Q η β) (numComputedTokens : Nat) :
    List (Chunk Q) → Option (State Q η β)
  | [] => some s
  | chunk :: chunks => do
    let s ← offloadPrefillQuery cfg s (chunk.reqMeta prompt numComputedTokens) chunk.query
    offloadChunks s (numComputedTokens + chunk.numScheduledTokens) chunks

/-- The prefill. -/
def prefill [DecidableEq η] (s : State Q η β) (numComputedTokens : Nat) :
    List (Chunk Q) → Option (State Q η β)
  | [] => some s
  | chunk :: chunks => do
    let s ← forward cfg outside s (chunk.reqMeta prompt numComputedTokens) chunk.query
    prefill s (numComputedTokens + chunk.numScheduledTokens) chunks

/-- Decode steps from one on, in the worker. -/
def decode [DecidableEq η] (s : State Q η β) (numOutputTokens : Nat) :
    List (DecodeStep Q) → Option (State Q η β)
  | [] => some s
  | d :: ds => do
    let s ← forward cfg outside s (d.reqMeta prompt numOutputTokens) d.query
    decode s (numOutputTokens + 1) ds

/-- The tables of the decode steps are those of the scheduler, from the table before them on. -/
def Scheduled (table : List Nat) (numOutputTokens : Nat) : List (DecodeStep Q) → Prop
  | [] => True
  | d :: ds =>
    (∃ newBlocks, allocateSlots cfg (estimateNumSlotsSparsed cfg prompt.numPromptTokens
      (prompt.numPromptTokens + numOutputTokens)) table newBlocks = some d.vllmBlockIds) ∧
    Scheduled d.vllmBlockIds (numOutputTokens + 1) ds

end UnifiedCache.Kvstar
