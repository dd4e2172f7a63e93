import UnifiedCache.Lib.Machine
import Mathlib.Logic.Function.Basic

/-!
# What the connector has loaded and dumped

The scheduler side of `UCMDirectConnector`: `get_num_new_matched_tokens` looks up how much of a
request is stored and notes it in `requests_meta`, and `build_connector_meta` pairs, in every
scheduling step, the hashes of a request's blocks with the blocks of the GPU they are loaded into or
dumped from.

Around it is vLLM as far as the connector depends on it: a request has tokens, a number of computed
tokens and a block table; it waits, runs, is preempted, resumes with a new table and finishes. Which
requests are scheduled with how many tokens and blocks, how long their locally cached prefix is and
what the store finds is in the events.
-/

open Lib

namespace UnifiedCache.Connector

/-- A token id. -/
abbrev Token := Nat

/-- `request_id`. -/
abbrev ReqId := Nat

/-- The number of a block of the GPU. -/
abbrev VllmBlock := Nat

/-- `l[start:stop]`. -/
def slice {α : Type*} (l : List α) (start stop : Nat) : List α := (l.drop start).take (stop - start)

/-- The configuration of the connector over hashes `η`. -/
structure Config (η : Type) where
  hashBlockSize : Nat
  cpWorldSize : Nat
  persistTokenThreshold : Nat
  /-- `request_hasher` on a parent hash and the tokens of a block. -/
  requestHasher : η → List Token → η
  seed : η
  hashBlockSize_pos : 0 < hashBlockSize
  cpWorldSize_pos : 0 < cpWorldSize

variable {η : Type}

/-- `self.block_size`. -/
def Config.blockSize (cfg : Config η) : Nat := cfg.hashBlockSize * cfg.cpWorldSize

/-- Blocks of two tokens, and hashes that are the tokens themselves. -/
def Config.small : Config (List Token) where
  hashBlockSize := 2
  cpWorldSize := 1
  persistTokenThreshold := 0
  requestHasher := fun parent block => parent ++ block
  seed := []
  hashBlockSize_pos := Nat.two_pos
  cpWorldSize_pos := Nat.one_pos

/-! ## Hashes -/

/-- The loop of `generate_hash` over the starts of the blocks. -/
def generateHashLoop (hasher : η → List Token → η) (blockSize : Nat) (tokens : List Token) :
    List Nat → η → List η
  | [], _ => []
  | start :: starts, parent =>
    let block := slice tokens start (start + blockSize)
    if block.length < blockSize then []
    else
      let hash := hasher parent block
      hash :: generateHashLoop hasher blockSize tokens starts hash

/-- `generate_hash`; the starts are `range(0, len(token_ids), block_size)`. -/
def generateHash (hasher : η → List Token → η) (blockSize : Nat) (tokens : List Token)
    (parent : η) : List η :=
  generateHashLoop hasher blockSize tokens
    ((List.range ((tokens.length + blockSize - 1) / blockSize)).map (· * blockSize)) parent

/-- The chained hash of the `j`th block of tokens. -/
def blockHash (cfg : Config η) (tokens : List Token) : Nat → η
  | 0 => cfg.requestHasher cfg.seed (slice tokens 0 cfg.hashBlockSize)
  | j + 1 => cfg.requestHasher (blockHash cfg tokens j)
      (slice tokens ((j + 1) * cfg.hashBlockSize) ((j + 1) * cfg.hashBlockSize + cfg.hashBlockSize))

/-! ## Metadata -/

/-- `RequestMeta`. -/
structure RequestMeta (η : Type) where
  ucmBlockIds : List η
  hbmHitBlockNum : Nat
  totalHitBlockNum : Nat
  numTokenIds : Nat
  vllmBlockIds : List VllmBlock
  tokenProcessed : Nat

/-- `RequestDispatchMeta`. -/
structure RequestDispatchMeta (η : Type) where
  loadBlockIds : List η × List VllmBlock
  dumpBlockIds : List η × List VllmBlock

/-- `requests_meta`. -/
abbrev RequestsMeta (η : Type) := ReqId → Option (RequestMeta η)

/-- `external_hit_blocks`, from what `lookup_on_prefix` returned; a lookup without a result has raised
a `RuntimeError`. -/
def externalHitBlocks (cfg : Config η) : Option Int → Nat
  | some hit => (hit + 1).toNat / cfg.cpWorldSize
  | none => 0

/-- `get_num_new_matched_tokens` for request `id`: the metadata after it and the external tokens. -/
def getNumNewMatchedTokens (cfg : Config η) (metas : RequestsMeta η) (id : ReqId)
    (tokens : List Token) (numComputedTokens : Nat) (lookup : Option Int) : RequestsMeta η × Nat :=
  let hbmHitBlockNum := numComputedTokens / cfg.blockSize
  let ucmBlockIds := generateHash cfg.requestHasher cfg.hashBlockSize tokens cfg.seed
  if cfg.persistTokenThreshold > tokens.length then (metas, 0)
  else if ucmBlockIds.drop (hbmHitBlockNum * cfg.cpWorldSize) = [] then (metas, 0)
  else
    let hitBlocks := externalHitBlocks cfg lookup
    let totalHitBlockNum := hbmHitBlockNum + hitBlocks
    let numTotalHitTokens := totalHitBlockNum * cfg.blockSize
    let externalHitTokens :=
      -- When everything is cached, the last token is computed again.
      if numTotalHitTokens = tokens.length then hitBlocks * cfg.blockSize - 1
      else hitBlocks * cfg.blockSize
    (Function.update metas id (some
      { ucmBlockIds := ucmBlockIds
        hbmHitBlockNum := hbmHitBlockNum
        totalHitBlockNum := totalHitBlockNum
        numTokenIds := tokens.length
        vllmBlockIds := []
        tokenProcessed := numTotalHitTokens }), externalHitTokens)

/-- `_generate_dispatch_meta`: the metadata after it and what is to be loaded and dumped. -/
def generateDispatchMeta (cfg : Config η) (reqMeta : RequestMeta η) (newTokens : Nat)
    (vllmBlockIds : List VllmBlock) (needLoad : Bool) : RequestMeta η × RequestDispatchMeta η :=
  let allBlockIds := reqMeta.vllmBlockIds ++ vllmBlockIds
  let load :=
    if needLoad then
      (slice reqMeta.ucmBlockIds (reqMeta.hbmHitBlockNum * cfg.cpWorldSize)
        (reqMeta.totalHitBlockNum * cfg.cpWorldSize),
        slice vllmBlockIds reqMeta.hbmHitBlockNum reqMeta.totalHitBlockNum)
    else ([], [])
  if reqMeta.tokenProcessed < reqMeta.numTokenIds then
    let startIdx := reqMeta.tokenProcessed / cfg.blockSize
    let endIdx := (reqMeta.tokenProcessed + newTokens) / cfg.blockSize
    let dump := (slice reqMeta.ucmBlockIds (startIdx * cfg.cpWorldSize) (endIdx * cfg.cpWorldSize),
      slice allBlockIds startIdx endIdx)
    ({ reqMeta with
      vllmBlockIds := allBlockIds
      tokenProcessed := reqMeta.tokenProcessed + newTokens }, ⟨load, dump⟩)
  else ({ reqMeta with vllmBlockIds := allBlockIds }, ⟨load, ([], [])⟩)

/-- A request in `scheduled_new_reqs`. -/
structure NewRequestData where
  reqId : ReqId
  blockIds : List VllmBlock

/-- A request in `scheduled_cached_reqs`. -/
structure CachedRequestData where
  reqId : ReqId
  newBlockIds : Option (List VllmBlock)
  resumedFromPreemption : Bool

/-- `SchedulerOutput`. -/
structure SchedulerOutput where
  scheduledNewReqs : List NewRequestData
  scheduledCachedReqs : List CachedRequestData
  numScheduledTokens : ReqId → Nat
  finishedReqIds : List ReqId

/-- What `build_connector_meta` hands to the workers. -/
abbrev ConnectorMetadata (η : Type) := List (ReqId × RequestDispatchMeta η)

/-- The body of the loops of `build_connector_meta`. -/
def dispatchRequest (cfg : Config η) (out : SchedulerOutput) (id : ReqId)
    (vllmBlockIds : List VllmBlock) (needLoad : Bool)
    (acc : RequestsMeta η × ConnectorMetadata η) : RequestsMeta η × ConnectorMetadata η :=
  match acc.1 id with
  | none => acc
  | some reqMeta =>
    let r := generateDispatchMeta cfg reqMeta (out.numScheduledTokens id) vllmBlockIds needLoad
    (Function.update acc.1 id (some r.1), acc.2 ++ [(id, r.2)])

/-- `build_connector_meta`. -/
def buildConnectorMeta (cfg : Config η) (metas : RequestsMeta η) (out : SchedulerOutput) :
    RequestsMeta η × ConnectorMetadata η :=
  let acc := out.scheduledNewReqs.foldl
    (fun acc r => dispatchRequest cfg out r.reqId r.blockIds true acc) (metas, [])
  let acc := out.scheduledCachedReqs.foldl
    (fun acc r => dispatchRequest cfg out r.reqId (r.newBlockIds.getD []) r.resumedFromPreemption acc)
    acc
  (out.finishedReqIds.foldl (fun metas id => Function.update metas id none) acc.1, acc.2)

/-! ## vLLM -/

/-- `request.status`. -/
inductive Status where
  /-- There is no request of this id yet. -/
  | unknown
  | waiting
  | running
  | preempted
  | finished
deriving DecidableEq, Repr

/-- What vLLM keeps for a request. -/
structure Request where
  status : Status
  allTokenIds : List Token
  numComputedTokens : Nat
  blockTable : List VllmBlock
  /-- The locally cached tokens and, with the external ones, the tokens that count as computed, since
  `get_num_new_matched_tokens` was called last. -/
  matched : Option (Nat × Nat)
  /-- The locally cached tokens when the request was scheduled. -/
  numLocalTokens : Nat
  /-- Set when the request is scheduled for the first time. -/
  numCachedTokens : Option Nat

/-- No request. -/
def Request.none : Request := ⟨.unknown, [], 0, [], Option.none, 0, Option.none⟩

/-- How a request takes part in a step. -/
inductive ItemKind where
  | new
  | running
  | resumed
deriving DecidableEq, Repr

/-- A request of the step with the blocks handed to it: its whole table when it is new or resumed. -/
structure Item where
  id : ReqId
  kind : ItemKind
  blocks : List VllmBlock

/-- The requests of a step in the order of `build_connector_meta`. -/
def SchedulerOutput.items (out : SchedulerOutput) : List Item :=
  out.scheduledNewReqs.map (fun r => ⟨r.reqId, .new, r.blockIds⟩) ++
    out.scheduledCachedReqs.map fun r =>
      ⟨r.reqId, if r.resumedFromPreemption then .resumed else .running, r.newBlockIds.getD []⟩

/-- Starts a request: the tokens and blocks vLLM may give it. -/
def Request.begin (blockSize : Nat) (r : Request) (blocks : List VllmBlock) (n : Nat) :
    Option Request :=
  match r.matched with
  | Option.none => Option.none
  | some (numLocal, numComputed) =>
    if 1 ≤ n ∧ n + numComputed ≤ r.allTokenIds.length ∧
        numComputed + n ≤ blocks.length * blockSize then
      some { r with
        status := .running
        numComputedTokens := numComputed + n
        blockTable := blocks
        matched := Option.none
        numLocalTokens := numLocal
        numCachedTokens := some (r.numCachedTokens.getD numComputed) }
    else Option.none

/-- Schedules a request for `n` tokens. -/
def Request.schedule (blockSize : Nat) (r : Request) (item : Item) (n : Nat) : Option Request :=
  match item.kind, r.status with
  | .new, .waiting => r.begin blockSize item.blocks n
  | .resumed, .preempted => r.begin blockSize item.blocks n
  | .running, .running =>
    let blockTable := r.blockTable ++ item.blocks
    if 1 ≤ n ∧ n + r.numComputedTokens ≤ r.allTokenIds.length ∧
        r.numComputedTokens + n ≤ blockTable.length * blockSize then
      some { r with numComputedTokens := r.numComputedTokens + n, blockTable := blockTable }
    else Option.none
  | _, _ => Option.none

/-- The requests after a step, `none` when vLLM does not make such a step. -/
def scheduleRequests (blockSize : Nat) (requests : ReqId → Request) (out : SchedulerOutput) :
    Option (ReqId → Request) :=
  if (out.items.map Item.id).Nodup ∧ (∀ item ∈ out.items, ((requests item.id).schedule blockSize item
      (out.numScheduledTokens item.id)).isSome) ∧
      ∀ id ∈ out.finishedReqIds, (requests id).status = .finished then
    some fun id =>
      match out.items.find? (fun item => item.id = id) with
      | some item => ((requests id).schedule blockSize item (out.numScheduledTokens id)).getD
          (requests id)
      | Option.none => requests id
  else Option.none

/-! ## Runs -/

/-- The scheduler: vLLM's requests, the connector's metadata and what it handed out last. -/
structure State (η : Type) where
  requests : ReqId → Request
  requestsMeta : RequestsMeta η
  dispatched : ConnectorMetadata η

/-- No requests. -/
def State.start : State η := ⟨fun _ => .none, fun _ => none, []⟩

/-- Replaces a request. -/
def State.setRequest (s : State η) (id : ReqId) (r : Request) : State η :=
  { s with requests := Function.update s.requests id r }

/-- The events. -/
inductive Event where
  /-- A request arrives with its prompt. -/
  | arrive (id : ReqId) (prompt : List Token)
  /-- vLLM asks the connector about a request with a locally cached prefix. -/
  | matched (id : ReqId) (numComputedTokens : Nat) (lookup : Option Int)
  /-- A scheduling step. -/
  | schedule (out : SchedulerOutput)
  /-- A token is sampled. -/
  | append (id : ReqId) (token : Token)
  | preempt (id : ReqId)
  | finish (id : ReqId)

/-- The lookup returns what `lookup_on_prefix` may return for `n` hashes. -/
def LookupOk (lookup : Option Int) (n : Nat) : Prop := ∀ hit ∈ lookup, -1 ≤ hit ∧ hit < n

instance (lookup : Option Int) (n : Nat) : Decidable (LookupOk lookup n) :=
  inferInstanceAs (Decidable (∀ hit ∈ lookup, -1 ≤ hit ∧ hit < n))

/-- One event. -/
def step (cfg : Config η) (s : State η) : Event → Option (State η)
  | .arrive id prompt =>
    if (s.requests id).status = .unknown ∧ prompt ≠ [] then
      some (s.setRequest id { Request.none with status := .waiting, allTokenIds := prompt })
    else none
  | .matched id numComputedTokens lookup =>
    let r := s.requests id
    let external := r.allTokenIds.length / cfg.hashBlockSize -
      numComputedTokens / cfg.blockSize * cfg.cpWorldSize
    if (r.status = .waiting ∨ r.status = .preempted) ∧ numComputedTokens % cfg.blockSize = 0 ∧
        numComputedTokens < r.allTokenIds.length ∧ LookupOk lookup external then
      let (metas, external) :=
        getNumNewMatchedTokens cfg s.requestsMeta id r.allTokenIds numComputedTokens lookup
      some { s.setRequest id { r with
          matched := some (numComputedTokens, numComputedTokens + external) } with
        requestsMeta := metas }
    else none
  | .schedule out =>
    (scheduleRequests cfg.blockSize s.requests out).map fun requests =>
      let (metas, dispatched) := buildConnectorMeta cfg s.requestsMeta out
      ⟨requests, metas, dispatched⟩
  | .append id token =>
    let r := s.requests id
    if r.status = .running ∧ r.numComputedTokens = r.allTokenIds.length then
      some (s.setRequest id { r with allTokenIds := r.allTokenIds ++ [token] })
    else none
  | .preempt id =>
    let r := s.requests id
    if r.status = .running then
      some (s.setRequest id { r with
        status := .preempted, numComputedTokens := 0, blockTable := [], matched := none })
    else none
  | .finish id =>
    let r := s.requests id
    if r.status ≠ .unknown ∧ r.status ≠ .finished then
      some (s.setRequest id { r with status := .finished, blockTable := [] })
    else none

/-- The scheduler with the connector. -/
def machine (cfg : Config η) : Machine (State η) Event where
  init s := s = .start
  step := step cfg

/-! ## Pairs -/

/-- What a dispatch has to be, for a request after the step. -/
structure DispatchOk (cfg : Config η) (r : Request) (d : RequestDispatchMeta η) : Prop where
  load_length : d.loadBlockIds.1.length = d.loadBlockIds.2.length
  dump_length : d.dumpBlockIds.1.length = d.dumpBlockIds.2.length
  /-- The hash of a block of tokens goes with the block of the table at the same place. -/
  load : ∀ p ∈ d.loadBlockIds.1.zip d.loadBlockIds.2, ∃ j, p.1 = blockHash cfg r.allTokenIds j ∧
    (j + 1) * cfg.blockSize ≤ r.allTokenIds.length ∧ r.blockTable[j]? = some p.2
  /-- So it does for a dump, and the block is computed when the step is over. -/
  dump : ∀ p ∈ d.dumpBlockIds.1.zip d.dumpBlockIds.2, ∃ j, p.1 = blockHash cfg r.allTokenIds j ∧
    (j + 1) * cfg.blockSize ≤ r.numComputedTokens ∧ r.blockTable[j]? = some p.2

/-- The hashes, in order, are those of the tokens in the blocks of the table, which stand at the places
from `start` on; a block of the table has `cp_world_size` hashes, and ends within the first `bound`
tokens. -/
structure Aligned (cfg : Config η) (r : Request) (bound start : Nat)
    (blocks : List η × List VllmBlock) : Prop where
  hashes : blocks.1 = (List.range' (start * cfg.cpWorldSize) (blocks.2.length * cfg.cpWorldSize)).map
    (blockHash cfg r.allTokenIds)
  table : ∀ j v, blocks.2[j]? = some v → r.blockTable[start + j]? = some v
  bound : ∀ j < blocks.2.length, (start + j + 1) * cfg.blockSize ≤ bound

/-- What a dispatch is, before it is split among the ranks of a context. -/
structure DispatchAligned (cfg : Config η) (r : Request) (d : RequestDispatchMeta η) : Prop where
  load : ∃ start, Aligned cfg r r.allTokenIds.length start d.loadBlockIds
  dump : ∃ start, Aligned cfg r r.numComputedTokens start d.dumpBlockIds

/-- When vLLM asks about a request that was preempted with part of its prompt still to be processed,
the locally cached prefix leaves a full block to look up. -/
def MatchedAfresh (cfg : Config η) (s : State η) : Event → Prop
  | .matched id numComputedTokens _ => ∀ m ∈ s.requestsMeta id, m.vllmBlockIds ≠ [] →
    m.tokenProcessed < m.numTokenIds →
    numComputedTokens / cfg.blockSize < (s.requests id).allTokenIds.length / cfg.blockSize
  | _ => True

instance (cfg : Config η) (s : State η) : (e : Event) → Decidable (MatchedAfresh cfg s e)
  | .matched id numComputedTokens _ => inferInstanceAs (Decidable (∀ m ∈ s.requestsMeta id,
      m.vllmBlockIds ≠ [] → m.tokenProcessed < m.numTokenIds →
      numComputedTokens / cfg.blockSize < (s.requests id).allTokenIds.length / cfg.blockSize))
  | .arrive _ _ => .isTrue trivial
  | .schedule _ => .isTrue trivial
  | .append _ _ => .isTrue trivial
  | .preempt _ => .isTrue trivial
  | .finish _ => .isTrue trivial

end UnifiedCache.Connector
