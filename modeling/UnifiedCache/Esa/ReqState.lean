import UnifiedCache.Lib.BlockCache
import UnifiedCache.Lib.Dict
import UnifiedCache.Gsa.Blocks
import UnifiedCache.Sparse.BlockHashes
import Mathlib.Algebra.Order.Floor.Div
import Mathlib.Data.Rat.Floor

/-!
# ESA for one request and one layer

At the end of the prefill the worker puts the init and the local window aside and takes slots for the
blocks between them. The scheduler frees the blocks at the first decode step and allocates as many as a
compressed prompt needs. Then the windows go back to the two ends of the new table, and the blocks that
the retrieval chooses are loaded between them; every `retrieval_stride` steps those that are not there
yet are loaded again.

A step that raises is `none`.
-/

open Lib Lib.BlockCache
open UnifiedCache.Sparse (getSparseRange)

namespace UnifiedCache.Esa

/-- `esa_cfg`, with the size of a block. -/
structure Config where
  blockSize : Nat
  initWindowSz : Nat
  localWindowSz : Nat
  sparseRatio : ℚ
  retrievalStride : Nat
  minBlocks : Nat
  blockSize_pos : 0 < blockSize
  sparseRatio_nonneg : 0 ≤ sparseRatio
  sparseRatio_le : sparseRatio ≤ 1
  retrievalStride_pos : 0 < retrievalStride

/-- The two tensors of a layer. -/
inductive Tensor where
  | key
  | value
deriving DecidableEq

/-- What a worker is told about a request in a step. -/
structure ReqMeta (η : Type) where
  numPromptTokens : Nat
  numOutputTokens : Nat
  numScheduledTokens : Nat
  numComputedTokens : Nat
  vllmBlockIds : List Nat
  ucmBlockHashes : List η

variable {Q η β : Type}

/-- `num_tokens`. -/
def ReqMeta.numTokens (m : ReqMeta η) : Nat := m.numPromptTokens + m.numOutputTokens

/-- `is_last_chunk`. -/
def ReqMeta.isLastChunk (m : ReqMeta η) : Bool :=
  m.numTokens ≤ m.numComputedTokens + m.numScheduledTokens

/-- Blocks of a window: of the keys, and of the values if there is a cache for them. -/
abbrev Window (β : Type) := List β × Option (List β)

/-- What the retrieval worker is given. -/
structure RetrievalTask (Q : Type) where
  query : Q
  slots : List Nat
  topk : Int

/-- `ReqStatePerLayer`. -/
structure State (Q η β : Type) where
  slots : List Nat
  slotsToRelativeIndexes : List (Nat × Nat)
  kCache : Nat → β
  /-- Some MLA models have no second tensor. -/
  vCache : Option (Nat → β)
  isMla : Bool
  /-- Tasks of the store, with what they load. The keys are hashes of what stands here. -/
  tasks : List ((List η × Tensor) × List (η × Nat))
  ropeTasks : List ((List η × Tensor) × List (η × Nat))
  retrievalTask : Option (RetrievalTask Q)
  blockHashes : Option (List η)
  preTopkBlockHashes : List (Nat × η)
  sparseRange : Int
  initStaticFlag : Bool
  initWindow : Option (Window β)
  localWindow : Option (Window β)
  step : Nat
  /-- What has been passed to `launch_transfer_task`; no code reads it. -/
  launched : List (List (Nat × η))

/-- A new `ReqStatePerLayer`, where the caches have these contents. -/
def State.new (isMla : Bool) (kCache : Nat → β) (vCache : Option (Nat → β)) : State Q η β where
  slots := []
  slotsToRelativeIndexes := []
  kCache := kCache
  vCache := vCache
  isMla := isMla
  tasks := []
  ropeTasks := []
  retrievalTask := none
  blockHashes := none
  preTopkBlockHashes := []
  sparseRange := 0
  initStaticFlag := false
  initWindow := none
  localWindow := none
  step := 0
  launched := []

/-- What is outside: the blocks in the two stores, and the slots that the retrieval gives for a task. -/
structure Outside (Q η β : Type) where
  keyData : η → β
  valueData : η → β
  ropeData : η → β
  retrieve : RetrievalTask Q → List Nat

/-- The orders in which a set of blocks and a set of hashes are iterated over. -/
structure SetOrders (η : Type) where
  keys : List Nat → List Nat
  values : List η → List η
  keys_perm : ∀ l, (keys l).Perm l
  values_perm : ∀ l, (values l).Perm l

/-! ## Numbers -/

/-- `int(x)`. -/
def pyInt (x : ℚ) : Int := if 0 ≤ x then ⌊x⌋ else ⌈x⌉

/-- `top_k`. -/
def topK (cfg : Config) (sparseRange : Int) : Int := pyInt (sparseRange * cfg.sparseRatio)

/-! ## Differences of maps -/

/-- What the loop of `diff_two_map` has got. -/
structure Diff (η : Type) where
  updatedMap : List (Nat × η)
  keys2Set : List Nat
  values2Set : List η

/-- `s.remove(x)` of a set; an element that is not there raises. -/
def remove {α : Type} [DecidableEq α] (s : List α) (x : α) : Option (List α) :=
  if x ∈ s then some (s.erase x) else none

/-- One pass of the loop of `diff_two_map`. -/
def keepPair [DecidableEq η] (map2 : List (Nat × η)) (acc : Diff η) (p : Nat × η) :
    Option (Diff η) :=
  if p.1 ∈ map2.map Prod.fst ∧ p.2 ∈ map2.map Prod.snd then do
    let keys ← remove acc.keys2Set p.1
    let values ← remove acc.values2Set p.2
    some ⟨Dict.set acc.updatedMap p.1 p.2, keys, values⟩
  else some acc

/-- `diff_two_map`: the updated map and the differences. -/
def diffTwoMap [DecidableEq η] (orders : SetOrders η) (map1 map2 : List (Nat × η)) :
    Option (List (Nat × η) × List (Nat × η)) := do
  let r ← map1.foldlM (keepPair map2) ⟨[], map2.map Prod.fst, (map2.map Prod.snd).dedup⟩
  let pairs := (orders.keys r.keys2Set).zip (orders.values r.values2Set)
  some (pairs.foldl (fun d p => Dict.set d p.1 p.2) r.updatedMap, Dict.ofPairs pairs)

variable (cfg : Config) (outside : Outside Q η β) (s : State Q η β) (m : ReqMeta η)

/-! ## Transfers -/

/-- `launch_transfer_task`, with `load`. -/
def launchTransferTask [DecidableEq η] (blocks : List (Nat × η)) : State Q η β :=
  let hashes := blocks.map Prod.snd
  let loads := hashes.zip (blocks.map Prod.fst)
  let tasks := Dict.set s.tasks (hashes, .key) loads
  { s with
    tasks := if s.isMla then tasks else Dict.set tasks (hashes, .value) loads
    ropeTasks :=
      if s.isMla ∧ s.vCache.isSome then Dict.set s.ropeTasks (hashes, .value) loads
      else s.ropeTasks
    launched := s.launched ++ [blocks] }

/-- `wait` for a task that succeeds, of a store with this data. -/
def waitTask (valueData : η → β) (s : State Q η β) (task : (List η × Tensor) × List (η × Nat)) :
    State Q η β :=
  let ids := task.2.map Prod.snd
  match task.1.2 with
  | .key => { s with kCache := writeAll s.kCache ids (task.2.map fun p => outside.keyData p.1) }
  | .value =>
    { s with vCache := s.vCache.map fun v => writeAll v ids (task.2.map fun p => valueData p.1) }

/-- `wait_transfer_task_done`. -/
def waitTransferTaskDone : State Q η β :=
  let s := s.tasks.foldl (waitTask outside outside.valueData) s
  let s := s.ropeTasks.foldl (waitTask outside outside.ropeData) s
  { s with tasks := [], ropeTasks := [] }

/-! ## Retrieval -/

/-- `start_retrieval`. -/
def startRetrieval (query : Q) : State Q η β :=
  { s with retrievalTask := some ⟨query, s.slots, topK cfg s.sparseRange⟩ }

/-- The blocks that the retrieved ones are loaded to. -/
def swapBlocks : List Nat :=
  Gsa.Blocks.slice m.vllmBlockIds cfg.initWindowSz (cfg.initWindowSz + topK cfg s.sparseRange)

/-- `wait_retrieval_and_start_load`. -/
def waitRetrievalAndStartLoad [DecidableEq η] (orders : SetOrders η) : Option (State Q η β) := do
  let task ← s.retrievalTask
  let choosedSlots := outside.retrieve task
  let relBlockIds ← choosedSlots.mapM (Dict.get? s.slotsToRelativeIndexes)
  let hashes ← s.blockHashes
  let blockHashes ← relBlockIds.mapM fun i => hashes[i]?
  let targetMap := Dict.ofPairs ((swapBlocks cfg s m).zip blockHashes)
  let (updated, diffBlocks) ← diffTwoMap orders s.preTopkBlockHashes targetMap
  let s := { s with preTopkBlockHashes := updated }
  let s := if diffBlocks ≠ [] then launchTransferTask s diffBlocks else s
  some { s with retrievalTask := none }

/-! ## Windows -/

/-- The blocks of a window. -/
def window (ids : List Nat) : Window β := (ids.map s.kCache, s.vCache.map fun v => ids.map v)

/-- `cache[ids] = window`, for the two tensors. -/
def putWindow (ids : List Nat) (w : Window β) : Option (State Q η β) := do
  let kCache ← indexPut s.kCache ids w.1
  match s.vCache, w.2 with
  | some v, some values => do
    let v ← indexPut v ids values
    some { s with kCache, vCache := some v }
  | _, _ => some { s with kCache }

/-- `block_repre_data`, with the free slots of the pool as they are iterated over. -/
def blockRepreData (freeSlots : List Nat) : Option (State Q η β) :=
  let sparseRange := getSparseRange cfg.initWindowSz cfg.localWindowSz m.numPromptTokens cfg.blockSize
  let dump := Gsa.Blocks.slice m.vllmBlockIds cfg.initWindowSz (cfg.initWindowSz + sparseRange)
  -- No blocks cannot be reshaped to `(0, -1)`.
  if dump = [] then none
  else if (freeSlots.length : Int) < sparseRange then none
  else
    let newSlots := Gsa.Blocks.slice freeSlots 0 sparseRange
    let localWindowStart := cfg.initWindowSz + sparseRange
    some { s with
      sparseRange
      slotsToRelativeIndexes := (newSlots.zipIdx s.slots.length).foldl
        (fun d p => Dict.set d p.1 p.2) s.slotsToRelativeIndexes
      slots := s.slots ++ newSlots
      initWindow := some (window s (m.vllmBlockIds.take cfg.initWindowSz))
      localWindow := some (window s
        (Gsa.Blocks.slice m.vllmBlockIds localWindowStart m.vllmBlockIds.length)) }

/-! ## Steps -/

/-- `maybe_register_static_data`. -/
def maybeRegisterStaticData : State Q η β :=
  if s.initStaticFlag then s
  else { s with blockHashes := some m.ucmBlockHashes, initStaticFlag := true }

/-- `attention_begin` of the first decode step: the windows go back, and the first blocks are loaded. -/
def restoreAndLoad [DecidableEq η] (query : Q) (orders : SetOrders η) : Option (State Q η β) := do
  let initWindow ← s.initWindow
  let localWindow ← s.localWindow
  let localWindowSz : Int := localWindow.1.length
  let s ← putWindow s (m.vllmBlockIds.take cfg.initWindowSz) initWindow
  let lastIds := Gsa.Blocks.slice m.vllmBlockIds (-localWindowSz) m.vllmBlockIds.length
  let s ← putWindow s lastIds localWindow
  waitRetrievalAndStartLoad cfg outside (startRetrieval cfg s query) m orders

/-- `attention_begin`. -/
def attentionBegin [DecidableEq η] (query : Q) (orders : SetOrders η) : Option (State Q η β) := do
  let s := maybeRegisterStaticData s m
  if s.step % cfg.retrievalStride = 1 then do
    let s ← if s.step = 1 then restoreAndLoad cfg outside s m query orders else some s
    some (if 0 < s.tasks.length then waitTransferTaskDone outside s else s)
  else some s

/-- `attention_finished`. -/
def attentionFinished [DecidableEq η] (query : Q) (orders : SetOrders η) (freeSlots : List Nat) :
    Option (State Q η β) :=
  if s.step = 0 then
    if m.isLastChunk then do
      let s ← blockRepreData cfg s m freeSlots
      some { s with step := s.step + 1 }
    else some s
  else do
    let s := if s.step % cfg.retrievalStride = 2 then startRetrieval cfg s query else s
    let s ← if s.step % cfg.retrievalStride = 0 then waitRetrievalAndStartLoad cfg outside s m orders
      else some s
    some { s with step := s.step + 1 }

/-! ## Scheduler -/

/-- What the scheduler knows of a request. -/
structure Request where
  numPromptTokens : Nat
  numOutputTokens : Nat
  numComputedTokens : Nat
  /-- Its entry in `preempt_req_output_tokens`. -/
  preemptOutputTokens : Option Nat

/-- The output tokens since the last preemption. -/
def Request.outputTokens (r : Request) : Int :=
  r.numOutputTokens - (r.preemptOutputTokens.getD 0 : Nat)

/-- `estimate_num_slots_sparsed` for a request that is not preempted now; `none` is `INVALID_SLOT`. -/
def estimateNumSlotsSparsed (r : Request) : Option Int :=
  if r.numComputedTokens = 0 ∨ r.outputTokens = 0 ∨
      r.numPromptTokens < cfg.blockSize * cfg.minBlocks then none
  else
    let sparseRange := getSparseRange cfg.initWindowSz cfg.localWindowSz r.numPromptTokens cfg.blockSize
    let flaw := r.numPromptTokens % cfg.blockSize
    let localWindowTokens : Int :=
      if flaw = 0 then cfg.blockSize * cfg.localWindowSz
      else flaw + cfg.blockSize * ((cfg.localWindowSz : Int) - 1)
    some (cfg.initWindowSz * cfg.blockSize + topK cfg sparseRange * cfg.blockSize +
      localWindowTokens + r.numOutputTokens)

/-- `allocate_slots`: the blocks of the request afterwards, if the pool gives these new ones. -/
def allocateSlots (r : Request) (numSlotsSparsed : Nat) (allocatedBlocks newBlocks : List Nat) :
    Option (List Nat) :=
  let blocks := if r.outputTokens = 1 then [] else allocatedBlocks
  if newBlocks.length = numSlotsSparsed ⌈/⌉ cfg.blockSize - blocks.length then
    some (blocks ++ newBlocks)
  else none

/-- The steps of the prefill, with the blocks that are there in each of them. -/
def prefill [DecidableEq η] (orders : SetOrders η) (freeSlots : List Nat) (s : State Q η β) :
    List (ReqMeta η × Q) → Option (State Q η β)
  | [] => some s
  | (m, query) :: ms => do
    let s ← attentionBegin cfg outside s m query orders
    let s ← attentionFinished cfg outside s m query orders freeSlots
    prefill orders freeSlots s ms

end UnifiedCache.Esa
