import UnifiedCache.Connector.LayerWise
import Mathlib.Data.Set.Function

/-!
# The keys of the blocks in the store

Every rank keeps its own part of a block, so a worker rewrites the scheduler's ids with its own
`RequestHasher` before it loads or dumps under them. Where and when it does so differs: on the direct
connector in `start_load_kv` and `wait_for_save`, on the layer-wise connector in `start_load_kv` and,
at the first layer only, in `save_kv_layer`.

MD5 is a parameter.
-/

open Lib

namespace UnifiedCache.Connector

/-! ## The hasher -/

/-- What `RequestHasher` reads of the configuration, and the hash function. -/
structure ModelConfig where
  model : String
  dtype : String
  tpSize : Nat
  isMla : Bool
  /-- `hashlib.md5(..).digest()`. -/
  md5 : List UInt8 → List UInt8

/-- `meta_bytes` of `RequestHasher(vllm_config, rank_id)`. -/
def ModelConfig.metaBytes (mc : ModelConfig) (rankId : Nat) : List UInt8 :=
  (s!"{mc.model}:{mc.tpSize}:{mc.dtype}:{rankId}").toUTF8.data.toList

/-- `RequestHasher.__call__` on bytes; the scheduler calls it on a pickled block. -/
def ModelConfig.requestHasher (mc : ModelConfig) (rankId : Nat) (input : List UInt8) : List UInt8 :=
  mc.md5 (mc.metaBytes rankId ++ input)

/-! ## The direct connector -/

variable {η : Type}

/-- What a call of `load_data` or `dump_data` is given. -/
structure StoreCall (η : Type) where
  blockIds : List η
  shardIndexs : List Nat
  ptrs : List (List UInt64)

/-- `extract_block_addrs` without `layer_first`, reshaped to a row for each block. -/
def KVCacheLayout.extractBlockRows (layout : KVCacheLayout) (vllmBlockIds : List VllmBlock) :
    List (List UInt64) :=
  vllmBlockIds.map fun v => (List.zipWith (fun sizes bases => blockAddrs sizes bases v)
    layout.tensorSizeLists layout.basePtrs).flatten

/-- `UCMDirectConnector` on a worker, with the calls of the step. -/
structure DirectConnector (η : Type) where
  connectorMetadata : ConnectorMetadata η
  invalidBlockIds : List VllmBlock
  loadCalls : List (ReqId × StoreCall η)
  dumpCalls : List (StoreCall η)

namespace DirectConnector

/-- `__init__`. -/
def start : DirectConnector η := ⟨[], [], [], []⟩

/-- A call for all layers. -/
def storeCall (cfg : WorkerConfig η) (ucmBlockIds : List η) (vllmBlockIds : List VllmBlock) :
    StoreCall η where
  blockIds := ucmBlockIds
  shardIndexs := List.replicate ucmBlockIds.length 0
  ptrs := cfg.kvCacheLayout.extractBlockRows vllmBlockIds

/-- `start_load_kv` rewrites the ids of what is loaded, in place. -/
def rewriteLoads (cfg : WorkerConfig η) (d : RequestDispatchMeta η) : RequestDispatchMeta η :=
  if cfg.tpRank ≠ 0 ∧ cfg.isMla = false then
    { d with loadBlockIds := (d.loadBlockIds.1.map cfg.requestHasher, d.loadBlockIds.2) }
  else d

/-- `wait_for_save` rewrites the ids of what is dumped, in place. -/
def rewriteDumps (cfg : WorkerConfig η) (d : RequestDispatchMeta η) : RequestDispatchMeta η :=
  if cfg.tpRank ≠ 0 then
    { d with dumpBlockIds := (d.dumpBlockIds.1.map cfg.requestHasher, d.dumpBlockIds.2) }
  else d

/-- `start_load_kv`. -/
def startLoadKv (cfg : WorkerConfig η) (o : Outcomes) (c : DirectConnector η) : DirectConnector η :=
  let metadata := c.connectorMetadata.map fun x => (x.1, rewriteLoads cfg x.2)
  let requestToTask := (loads metadata).filter fun x => o.submit 0 x.1
  let failed := (loads metadata).filter (fun x => !o.submit 0 x.1) ++
    requestToTask.filter fun x => !o.wait 0 x.1
  { c with
    connectorMetadata := metadata
    invalidBlockIds := c.invalidBlockIds ++ failedBlocks failed
    loadCalls := c.loadCalls ++
      (loads metadata).map fun x => (x.1, storeCall cfg x.2.loadBlockIds.1 x.2.loadBlockIds.2) }

/-- `wait_for_save`; a call that fails is only logged. -/
def waitForSave (cfg : WorkerConfig η) (c : DirectConnector η) : DirectConnector η :=
  if cfg.isMla = true ∧ cfg.tpRank ≠ 0 then c
  else
    let metadata := c.connectorMetadata.map fun x => (x.1, rewriteDumps cfg x.2)
    let entries := dumpEntries metadata
    let c := { c with connectorMetadata := metadata }
    if entries.isEmpty then c
    else { c with dumpCalls := c.dumpCalls ++
      [storeCall cfg (entries.flatMap fun x => x.2.1) (entries.flatMap fun x => x.2.2)] }

/-- `bind_connector_metadata`, and no calls yet. -/
def bindConnectorMetadata (metadata : ConnectorMetadata η) (c : DirectConnector η) :
    DirectConnector η :=
  { c with connectorMetadata := metadata, loadCalls := [], dumpCalls := [] }

/-- A step. -/
def runStep (cfg : WorkerConfig η) (e : LayerWiseConnector.Step η) (c : DirectConnector η) :
    DirectConnector η :=
  waitForSave cfg (startLoadKv cfg e.outcomes.loads (c.bindConnectorMetadata e.metadata))

end DirectConnector

/-! ## Keys -/

/-- The scheduler's ids of what is to be dumped, in the order of the requests. -/
def dumpIds (metadata : ConnectorMetadata η) : List η :=
  (dumpEntries metadata).flatMap fun x => x.2.1

/-- In the step the worker dumps block `h` for layer `l` under the key, an id and a shard index. A call
of the direct connector is for all layers of the worker. -/
def DumpsUnder (kind : ConnectorKind) (cfg : WorkerConfig η) (e : LayerWiseConnector.Step η) (h : η)
    (l : Nat) (key : η × Nat) : Prop :=
  match kind with
  | .direct => ∃ c, ∃ call ∈ (DirectConnector.runStep cfg e c).dumpCalls,
      (∃ kv ∈ cfg.kvCaches, kv.layerId = l) ∧ ∃ i : Nat, (dumpIds e.metadata)[i]? = some h ∧
        call.blockIds[i]? = some key.1 ∧ call.shardIndexs[i]? = some key.2
  | .layerWise => ∃ c, (layerWiseMachine cfg).Reachable c ∧ ∃ kv ∈ cfg.kvCaches, kv.layerId = l ∧
      ∃ ids shards ptrs task, .dumpData kv.name ids shards ptrs task ∈ (c.runStep cfg e).trace ∧
        ∃ i : Nat, (dumpIds e.metadata)[i]? = some h ∧ ids[i]? = some key.1 ∧ shards[i]? = some key.2

/-- In the step the worker loads block `h` for layer `l` under the key. -/
def LoadsUnder (kind : ConnectorKind) (cfg : WorkerConfig η) (e : LayerWiseConnector.Step η) (h : η)
    (l : Nat) (key : η × Nat) : Prop :=
  match kind with
  | .direct => ∃ c, ∃ x ∈ e.metadata, ∃ call, (x.1, call) ∈ (DirectConnector.runStep cfg e c).loadCalls ∧
      (∃ kv ∈ cfg.kvCaches, kv.layerId = l) ∧ ∃ i : Nat, x.2.loadBlockIds.1[i]? = some h ∧
        call.blockIds[i]? = some key.1 ∧ call.shardIndexs[i]? = some key.2
  | .layerWise => ∃ c, (layerWiseMachine cfg).Reachable c ∧ ∃ x ∈ e.metadata,
      ∃ ids shards ptrs task, .loadData l x.1 ids shards ptrs task ∈ (c.runStep cfg e).trace ∧
        ∃ i : Nat, x.2.loadBlockIds.1[i]? = some h ∧ ids[i]? = some key.1 ∧ shards[i]? = some key.2

/-- A worker of the model. The ranks of the direct connector are below `tp_size`; the hooks of the
layer-wise one are called once per layer in ascending order. -/
structure ModelConfig.IsWorker (mc : ModelConfig) (kind : ConnectorKind)
    (cfg : WorkerConfig (List UInt8)) : Prop where
  tpSize : cfg.tpSize = mc.tpSize
  isMla : cfg.isMla = mc.isMla
  requestHasher : cfg.requestHasher = mc.requestHasher (cfg.tpRank % mc.tpSize)
  rank : kind = .direct → cfg.tpRank < mc.tpSize
  layers : kind = .layerWise → cfg.Consecutive

/-- The worker dumps its data: with MLA all ranks have the same, and the first one dumps it. -/
def ModelConfig.Owns (mc : ModelConfig) (cfg : WorkerConfig (List UInt8)) : Prop :=
  mc.isMla = true → cfg.tpRank % mc.tpSize = 0

/-- The second worker needs what the first one has dumped: with MLA that of the first rank, otherwise
that of its own. -/
def ModelConfig.Needs (mc : ModelConfig) (own need : WorkerConfig (List UInt8)) : Prop :=
  if mc.isMla then own.tpRank % mc.tpSize = 0 else own.tpRank % mc.tpSize = need.tpRank % mc.tpSize

/-- What MD5 is applied to for these pickled blocks, by the scheduler and by the workers. -/
def ModelConfig.hashed (mc : ModelConfig) (pickles : Set (List UInt8)) : Set (List UInt8) :=
  { b | ∃ p ∈ pickles, b = mc.metaBytes 0 ++ p ∨
    ∃ r, 0 < r ∧ r < mc.tpSize ∧ b = mc.metaBytes r ++ mc.requestHasher 0 p }

/-- What is expected of the keys, for the scheduler's ids of these pickled blocks. -/
structure KeysAgree (mc : ModelConfig) (kind : ConnectorKind) (pickles : Set (List UInt8)) : Prop where
  /-- An owner dumps every block of the step for every one of its layers, and nobody else does. -/
  dumped : ∀ own e h l, mc.IsWorker kind own → h ∈ dumpIds e.metadata →
    l ∈ own.kvCaches.map KvLayer.layerId → (mc.Owns own ↔ ∃ key, DumpsUnder kind own e h l key)
  /-- A block is loaded under the key it is dumped under. -/
  agree : ∀ own need e e' h l key key', mc.IsWorker kind own → mc.IsWorker kind need →
    mc.Needs own need → DumpsUnder kind own e h l key → LoadsUnder kind need e' h l key' → key = key'
  /-- Ranks that have different data have different keys. -/
  distinct : ∀ a b e e' p l l' key key', mc.isMla = false → mc.IsWorker kind a →
    mc.IsWorker kind b → a.tpRank % mc.tpSize ≠ b.tpRank % mc.tpSize → p ∈ pickles →
    DumpsUnder kind a e (mc.requestHasher 0 p) l key ∨ LoadsUnder kind a e (mc.requestHasher 0 p) l key →
    DumpsUnder kind b e' (mc.requestHasher 0 p) l' key' ∨
      LoadsUnder kind b e' (mc.requestHasher 0 p) l' key' → key.1 ≠ key'.1

/-! ## A small model -/

/-- The pickled block of the tokens 1 and 2 behind the seed. -/
def samplePickle : List UInt8 :=
  [128, 5, 149, 28, 0, 0, 0, 0, 0, 0, 0, 67, 16, 60, 204, 171, 209, 53, 155, 157, 110, 80, 220, 163, 25,
    205, 123, 82, 127, 148, 75, 1, 75, 2, 134, 148, 134, 148, 46]

/-- The scheduler's id of it. -/
def sampleHash : List UInt8 :=
  [99, 225, 146, 142, 83, 224, 161, 30, 202, 43, 212, 27, 208, 248, 118, 110]

/-- The key of it on the second rank. -/
def sampleKey : List UInt8 :=
  [158, 202, 38, 168, 254, 172, 247, 1, 214, 22, 243, 166, 180, 11, 35, 179]

/-- `m:2:torch.bfloat16:`, encoded. -/
def sampleMeta : List UInt8 :=
  [109, 58, 50, 58, 116, 111, 114, 99, 104, 46, 98, 102, 108, 111, 97, 116, 49, 54, 58]

/-- Two ranks; MD5 is tabulated where it is applied to the sample. -/
def ModelConfig.small : ModelConfig where
  model := "m"
  dtype := "torch.bfloat16"
  tpSize := 2
  isMla := false
  md5 := fun b => if b = sampleMeta ++ 48 :: samplePickle then sampleHash
    else if b = sampleMeta ++ 49 :: sampleHash then sampleKey
    else []

/-- The second rank of the small model. -/
def ModelConfig.smallWorker : WorkerConfig (List UInt8) where
  kvCaches := KvLayer.small
  tpRank := 1
  tpSize := 2
  isMla := false
  requestHasher := ModelConfig.small.requestHasher 1
  names_nodup := KvLayer.small_nodup
  kvCaches_ne := KvLayer.small_ne

/-- One request loads the sample, another one dumps it. -/
def ModelConfig.smallStep : LayerWiseConnector.Step (List UInt8) where
  metadata := [(0, ⟨([sampleHash], [5]), ([], [])⟩), (1, ⟨([], []), ([sampleHash], [8])⟩)]
  outcomes := LayerWiseConnector.Step.small.outcomes
  nodup := LayerWiseConnector.nodup_pair

end UnifiedCache.Connector
