import UnifiedCache.Connector.Worker
import Mathlib.Data.List.Dedup
import Mathlib.Data.List.Sort

/-!
# The tasks of the layer-wise connector

The worker side of `UCMLayerWiseConnector` call by call: which calls of its store it makes in a step,
with which keys, shard indexes and pointers, and what it keeps in `load_tasks`, `dump_tasks`,
`request_data`, `_failure_req_ids` and `_invalid_block_ids` meanwhile.

What happens in a step is recorded in a trace. Whether a call raises a `RuntimeError` is in the
outcomes of the step, so that the theorems are about every pattern of failures.
-/

open Lib

namespace UnifiedCache.Connector

variable {η : Type}

/-! ## The layout of the caches -/

/-- `layer_name`. -/
abbrev LayerName := String

/-- A tensor of a layer: where its first block is, and the bytes of a block. -/
structure KvTensor where
  ptr : UInt64
  stride : UInt64

/-- An entry of `kv_caches`; the layer id is `extract_layer_index` of the name. -/
structure KvLayer where
  name : LayerName
  layerId : Nat
  tensors : List KvTensor

/-- `KVCacheLayout`: a row for each layer. -/
structure KVCacheLayout where
  basePtrs : List (List UInt64)
  tensorSizeLists : List (List UInt64)

/-- The body of the loop of `_build_layout`. -/
def KVCacheLayout.addLayer (firstLayerId : Nat) (layout : KVCacheLayout) (kv : KvLayer) :
    KVCacheLayout where
  basePtrs := layout.basePtrs.modify (kv.layerId - firstLayerId) (· ++ kv.tensors.map KvTensor.ptr)
  tensorSizeLists :=
    layout.tensorSizeLists.modify (kv.layerId - firstLayerId) (· ++ kv.tensors.map KvTensor.stride)

/-- `_build_layout`; the first layer id is that of the first entry. -/
def buildLayout (kvCaches : List KvLayer) : KVCacheLayout :=
  let firstLayerId := (kvCaches.head?.map KvLayer.layerId).getD 0
  let numRows := (kvCaches.map KvLayer.layerId).dedup.length
  kvCaches.foldl (KVCacheLayout.addLayer firstLayerId)
    ⟨List.replicate numRows [], List.replicate numRows []⟩

/-- The addresses of the tensors of a block in a layer. -/
def blockAddrs (tensorSizes basePtrs : List UInt64) (v : VllmBlock) : List UInt64 :=
  List.zipWith (fun size base => size * UInt64.ofNat v + base) tensorSizes basePtrs

/-- `extract_block_addrs` with `layer_first`: by layer, block and tensor. -/
def KVCacheLayout.extractBlockAddrs (layout : KVCacheLayout) (vllmBlockIds : List VllmBlock) :
    List (List (List UInt64)) :=
  List.zipWith (fun sizes bases => vllmBlockIds.map (blockAddrs sizes bases))
    layout.tensorSizeLists layout.basePtrs

/-! ## The connector -/

/-- The configuration of a worker. -/
structure WorkerConfig (η : Type) where
  kvCaches : List KvLayer
  tpRank : Nat
  tpSize : Nat
  isMla : Bool
  /-- `request_hasher` on a block id. -/
  requestHasher : η → η
  /-- `kv_caches` is a dictionary. -/
  names_nodup : (kvCaches.map KvLayer.name).Nodup
  /-- `register_kv_caches` takes the first entry. -/
  kvCaches_ne : kvCaches ≠ []

/-- Two layers from the third on, with a tensor for the keys and one for the values. -/
def KvLayer.small : List KvLayer :=
  [⟨"model.layers.3.attn", 3, [⟨4096, 16⟩, ⟨8192, 16⟩]⟩,
    ⟨"model.layers.4.attn", 4, [⟨12288, 16⟩, ⟨16384, 16⟩]⟩]

theorem KvLayer.small_nodup : (KvLayer.small.map KvLayer.name).Nodup := by decide

theorem KvLayer.small_ne : KvLayer.small ≠ [] := List.cons_ne_nil _ _

/-- The second of two ranks, where a hash is rewritten by adding 100. -/
def WorkerConfig.small : WorkerConfig Nat where
  kvCaches := KvLayer.small
  tpRank := 1
  tpSize := 2
  isMla := false
  requestHasher := (· + 100)
  names_nodup := KvLayer.small_nodup
  kvCaches_ne := KvLayer.small_ne

/-- `self.kv_cache_layout`. -/
def WorkerConfig.kvCacheLayout (cfg : WorkerConfig η) : KVCacheLayout := buildLayout cfg.kvCaches

/-- `self.layer_ids`. -/
def WorkerConfig.layerIds (cfg : WorkerConfig η) : List Nat :=
  (cfg.kvCaches.map KvLayer.layerId).dedup.insertionSort (· ≤ ·)

/-- `self.first_layer_id`. -/
def WorkerConfig.firstLayerId (cfg : WorkerConfig η) : Nat := cfg.layerIds.head?.getD 0

/-- `start_load_kv` rewrites the ids of what is loaded, in place. -/
def WorkerConfig.rewriteLoads (cfg : WorkerConfig η) (d : RequestDispatchMeta η) :
    RequestDispatchMeta η :=
  if cfg.tpRank % cfg.tpSize ≠ 0 ∧ cfg.isMla = false then
    { d with loadBlockIds := (d.loadBlockIds.1.map cfg.requestHasher, d.loadBlockIds.2) }
  else d

/-- `save_kv_layer` rewrites the ids of what is dumped, in place, at the first layer. -/
def WorkerConfig.rewriteDumps (cfg : WorkerConfig η) (localLayerId : Nat)
    (d : RequestDispatchMeta η) : RequestDispatchMeta η :=
  if cfg.tpRank % cfg.tpSize ≠ 0 ∧ localLayerId = 0 then
    { d with dumpBlockIds := (d.dumpBlockIds.1.map cfg.requestHasher, d.dumpBlockIds.2) }
  else d

/-- `d[key] = value` for a dictionary in the order of insertion. -/
def dictSet {κ α : Type*} [DecidableEq κ] (d : List (κ × α)) (key : κ) (value : α) : List (κ × α) :=
  if key ∈ d.map Prod.fst then d.map fun x => if x.1 = key then (key, value) else x
  else d ++ [(key, value)]

/-- A task of the store: the number of the call that has returned it. -/
abbrev Task := Nat

/-- What happens in a step. -/
inductive Action (η : Type) where
  /-- `load_data` for a layer of a request; without a task it has raised a `RuntimeError`. -/
  | loadData (layerId : Nat) (req : ReqId) (blockIds : List η) (shardIndexs : List Nat)
      (ptrs : List (List UInt64)) (task : Option Task)
  /-- `wait` for the task of a request, which has raised a `RuntimeError` if it is not `ok`. -/
  | waitLoad (req : ReqId) (task : Task) (ok : Bool)
  /-- The forward pass through a layer. -/
  | forward (layerId : Nat)
  /-- `dump_data` at a layer. -/
  | dumpData (layer : LayerName) (blockIds : List η) (shardIndexs : List Nat)
      (ptrs : List (List UInt64)) (task : Option Task)
  /-- `wait` for the task of a layer. -/
  | waitDump (layer : LayerName) (task : Task) (ok : Bool)
deriving DecidableEq

/-- Whether the calls of the store in a step end well: a load by layer id and request, a dump by layer
name. -/
structure StoreOutcomes where
  loads : Outcomes
  submitDump : LayerName → Bool
  waitDump : LayerName → Bool

/-- `UCMLayerWiseConnector` on a worker, with the trace of the step. -/
structure LayerWiseConnector (η : Type) where
  connectorMetadata : Option (ConnectorMetadata η)
  /-- By layer id, in the order of insertion. -/
  loadTasks : Nat → List (ReqId × Task)
  dumpTasks : List (LayerName × Task)
  isSave : Bool
  needLoad : Bool
  dumpTotalPtrs : Option (List (List (List UInt64)))
  requestData : List (ReqId × List η × List (List (List UInt64)))
  failureReqIds : List ReqId
  invalidBlockIds : List VllmBlock
  trace : List (Action η)

namespace LayerWiseConnector

/-- `__init__`. -/
def start : LayerWiseConnector η := ⟨none, fun _ => [], [], false, false, none, [], [], [], []⟩

/-- Records what happens. -/
def record (c : LayerWiseConnector η) (a : Action η) : LayerWiseConnector η :=
  { c with trace := c.trace ++ [a] }

/-- `_invalid_block_ids.update(metadata.request_meta[request_id].load_block_ids[1])` and
`_failure_req_ids.add(request_id)`. -/
def fail (c : LayerWiseConnector η) (metadata : ConnectorMetadata η) (req : ReqId) :
    LayerWiseConnector η :=
  { c with
    invalidBlockIds := c.invalidBlockIds ++
      ((metadata.find? fun x => x.1 = req).map fun x => x.2.loadBlockIds.2).getD []
    failureReqIds := c.failureReqIds ++ [req] }

/-! ### Loading -/

/-- `load_tasks[layer_id][request_id] = task`. -/
def putLoadTask (c : LayerWiseConnector η) (layerId : Nat) (req : ReqId) (task : Task) :
    LayerWiseConnector η :=
  { c with
    loadTasks := Function.update c.loadTasks layerId (dictSet (c.loadTasks layerId) req task) }

/-- The body of the loop of `_submit_request_load_tasks_for_layer`. -/
def submitRequest (o : Outcomes) (metadata : ConnectorMetadata η) (layerId localRow : Nat)
    (c : LayerWiseConnector η) (data : ReqId × List η × List (List (List UInt64))) :
    LayerWiseConnector η :=
  let (req, ucmBlockIds, totalPtrs) := data
  if req ∈ c.failureReqIds then c
  else
    let shardIndexs := List.replicate ucmBlockIds.length layerId
    let layerPtrs := totalPtrs.getD localRow []
    if o.submit layerId req then
      (c.record (.loadData layerId req ucmBlockIds shardIndexs layerPtrs
        (some c.trace.length))).putLoadTask layerId req c.trace.length
    else (c.record (.loadData layerId req ucmBlockIds shardIndexs layerPtrs none)).fail metadata req

/-- `_submit_request_load_tasks_for_layer`. -/
def submitRequestLoadTasksForLayer (o : Outcomes) (layerId localRow : Nat)
    (metadata : ConnectorMetadata η) (c : LayerWiseConnector η) : LayerWiseConnector η :=
  c.requestData.foldl (submitRequest o metadata layerId localRow) c

/-- The loop of `start_load_kv`, from cleared fields on. -/
def beginLoads (cfg : WorkerConfig η) (metadata : ConnectorMetadata η) (c : LayerWiseConnector η) :
    LayerWiseConnector η :=
  let requestData := (Connector.loads metadata).map fun x =>
    (x.1, x.2.loadBlockIds.1, cfg.kvCacheLayout.extractBlockAddrs x.2.loadBlockIds.2)
  { c with
    connectorMetadata := some metadata
    loadTasks := fun _ => []
    requestData := requestData
    failureReqIds := []
    needLoad := !requestData.isEmpty }

/-- `start_load_kv`. Without metadata it does not get past `_get_connector_metadata`. -/
def startLoadKv (cfg : WorkerConfig η) (o : Outcomes) (c : LayerWiseConnector η) :
    LayerWiseConnector η :=
  match c.connectorMetadata with
  | none => c
  | some metadata =>
    -- The ids are rewritten in the metadata itself; a request without any has none to rewrite.
    let metadata := metadata.map fun x => (x.1, cfg.rewriteLoads x.2)
    let c := beginLoads cfg metadata c
    if c.needLoad then submitRequestLoadTasksForLayer o cfg.firstLayerId 0 metadata c else c

/-- The body of the loop of `wait_for_layer_load`. -/
def waitRequest (o : Outcomes) (metadata : ConnectorMetadata η) (layerId : Nat)
    (c : LayerWiseConnector η) (x : ReqId × Task) : LayerWiseConnector η :=
  if o.wait layerId x.1 then c.record (.waitLoad x.1 x.2 true)
  else (c.record (.waitLoad x.1 x.2 false)).fail metadata x.1

/-- `wait_for_layer_load`. -/
def waitForLayerLoad (cfg : WorkerConfig η) (o : Outcomes) (c : LayerWiseConnector η)
    (kv : KvLayer) : LayerWiseConnector η :=
  match c.connectorMetadata with
  | none => c
  | some metadata =>
    if c.needLoad then
      let c := (c.loadTasks kv.layerId).foldl (waitRequest o metadata kv.layerId) c
      if kv.layerId + 1 ∈ cfg.layerIds then
        submitRequestLoadTasksForLayer o (kv.layerId + 1) (kv.layerId + 1 - cfg.firstLayerId)
          metadata c
      else c
    else c

/-- `get_block_ids_with_load_errors`: the set, and the connector with an empty one. -/
def getBlockIdsWithLoadErrors (c : LayerWiseConnector η) :
    List VllmBlock × LayerWiseConnector η :=
  (c.invalidBlockIds, { c with invalidBlockIds := [] })

/-! ### Saving -/

/-- `dump_tasks[layer_name] = task`. -/
def putDumpTask (c : LayerWiseConnector η) (layer : LayerName) (task : Task) :
    LayerWiseConnector η :=
  { c with dumpTasks := dictSet c.dumpTasks layer task }

/-- The end of `save_kv_layer`, with what is to be dumped of all requests. -/
def dumpLayer (cfg : WorkerConfig η) (o : StoreOutcomes) (kv : KvLayer) (ucmBlockIds : List η)
    (vllmBlockIds : List VllmBlock) (c : LayerWiseConnector η) : LayerWiseConnector η :=
  let totalPtrs := c.dumpTotalPtrs.getD (cfg.kvCacheLayout.extractBlockAddrs vllmBlockIds)
  let c := { c with dumpTotalPtrs := some totalPtrs }
  let shardIndexs := List.replicate ucmBlockIds.length kv.layerId
  let layerPtrs := totalPtrs.getD (kv.layerId - cfg.firstLayerId) []
  if o.submitDump kv.name then
    (c.record (.dumpData kv.name ucmBlockIds shardIndexs layerPtrs (some c.trace.length))).putDumpTask
      kv.name c.trace.length
  else c.record (.dumpData kv.name ucmBlockIds shardIndexs layerPtrs none)

/-- `save_kv_layer`. -/
def saveKvLayer (cfg : WorkerConfig η) (o : StoreOutcomes) (c : LayerWiseConnector η)
    (kv : KvLayer) : LayerWiseConnector η :=
  match c.connectorMetadata with
  | none => c
  | some metadata =>
    if cfg.isMla = true ∧ cfg.tpRank % cfg.tpSize ≠ 0 then c
    else
      let metadata := metadata.map fun x =>
        (x.1, cfg.rewriteDumps (kv.layerId - cfg.firstLayerId) x.2)
      let entries := dumpEntries metadata
      let c := { c with
        connectorMetadata := some metadata
        isSave := c.isSave || !entries.isEmpty }
      if c.isSave then
        dumpLayer cfg o kv (entries.flatMap fun x => x.2.1) (entries.flatMap fun x => x.2.2) c
      else c

/-- The loop of `wait_for_save` over `kv_caches`; the `try` block is around all of it. -/
def waitDumps (o : StoreOutcomes) : List KvLayer → LayerWiseConnector η → LayerWiseConnector η
  | [], c => c
  | kv :: rest, c =>
    match c.dumpTasks.lookup kv.name with
    | none => waitDumps o rest c
    | some task =>
      if o.waitDump kv.name then waitDumps o rest (c.record (.waitDump kv.name task true))
      else c.record (.waitDump kv.name task false)

/-- `wait_for_save`. -/
def waitForSave (cfg : WorkerConfig η) (o : StoreOutcomes) (c : LayerWiseConnector η) :
    LayerWiseConnector η :=
  if c.isSave then
    { waitDumps o cfg.kvCaches c with dumpTasks := [], isSave := false, dumpTotalPtrs := none }
  else c

/-! ### Steps -/

/-- A step: its metadata, which is a dictionary, and what comes of the calls. -/
structure Step (η : Type) where
  metadata : ConnectorMetadata η
  outcomes : StoreOutcomes
  nodup : (metadata.map Prod.fst).Nodup

theorem nodup_pair : ([0, 1] : List ReqId).Nodup := by decide

/-- Two requests that load and dump; the load of the second one fails at the second layer, and the
wait for the dump of the first layer fails. -/
def Step.small : Step Nat where
  metadata := [(0, ⟨([10, 11], [5, 6]), ([20], [8])⟩), (1, ⟨([12], [7]), ([21], [9])⟩)]
  outcomes := ⟨⟨fun l req => !(l = 4 && req = 1), fun _ _ => true⟩, fun _ => true,
    fun layer => layer ≠ "model.layers.3.attn"⟩
  nodup := nodup_pair

/-- The same step, but it is the wait for the dump of the last layer that fails. -/
def Step.lastFails : Step Nat where
  metadata := Step.small.metadata
  outcomes := { Step.small.outcomes with waitDump := fun layer => layer ≠ "model.layers.4.attn" }
  nodup := nodup_pair

/-- `bind_connector_metadata`, and a new trace. -/
def bindConnectorMetadata (metadata : ConnectorMetadata η) (c : LayerWiseConnector η) :
    LayerWiseConnector η :=
  { c with connectorMetadata := some metadata, trace := [] }

/-- `clear_connector_metadata`. -/
def clearConnectorMetadata (c : LayerWiseConnector η) : LayerWiseConnector η :=
  { c with connectorMetadata := none }

/-- What happens at a layer. -/
def runLayer (cfg : WorkerConfig η) (o : StoreOutcomes) (c : LayerWiseConnector η) (kv : KvLayer) :
    LayerWiseConnector η :=
  saveKvLayer cfg o ((waitForLayerLoad cfg o.loads c kv).record (.forward kv.layerId)) kv

/-- A step, from `bind_connector_metadata` to `wait_for_save`; the hooks of the layers are called in
the order of `kv_caches`. -/
def runStep (cfg : WorkerConfig η) (e : Step η) (c : LayerWiseConnector η) : LayerWiseConnector η :=
  let c := startLoadKv cfg e.outcomes.loads (c.bindConnectorMetadata e.metadata)
  let c := cfg.kvCaches.foldl (runLayer cfg e.outcomes) c
  waitForSave cfg e.outcomes c

end LayerWiseConnector

/-- What vLLM does with the connector of a worker. -/
inductive WorkerEvent (η : Type) where
  | step (e : LayerWiseConnector.Step η)
  | getBlockIdsWithLoadErrors
  | clearConnectorMetadata

/-- The connector of a worker from step to step. -/
def layerWiseMachine (cfg : WorkerConfig η) :
    Machine (LayerWiseConnector η) (WorkerEvent η) where
  init c := c = .start
  step c
    | .step e => some (c.runStep cfg e)
    | .getBlockIdsWithLoadErrors => some c.getBlockIdsWithLoadErrors.2
    | .clearConnectorMetadata => some c.clearConnectorMetadata

/-! ## What is expected of a step -/

namespace Action

/-- It has returned the task. -/
def submits (t : Task) : Action η → Bool
  | .loadData _ _ _ _ _ task => task = some t
  | .dumpData _ _ _ _ task => task = some t
  | _ => false

/-- It waits for the task. -/
def waitsFor (t : Task) : Action η → Bool
  | .waitLoad _ task _ => task = t
  | .waitDump _ task _ => task = t
  | _ => false

/-- It is a submission for the request. -/
def loadsFor (req : ReqId) : Action η → Bool
  | .loadData _ r _ _ _ _ => r = req
  | _ => false

/-- It is a failure of the request. -/
def failsFor (req : ReqId) : Action η → Bool
  | .loadData _ r _ _ _ task => r = req ∧ task = none
  | .waitLoad r _ ok => r = req ∧ ok = false
  | _ => false

end Action

/-- The layer ids are consecutive, in the order of `kv_caches`. -/
def WorkerConfig.Consecutive (cfg : WorkerConfig η) : Prop :=
  ∃ first, cfg.kvCaches.map KvLayer.layerId = List.range' first cfg.kvCaches.length

/-- The addresses of blocks in the tensors of a layer. -/
def WorkerConfig.layerPtrs (cfg : WorkerConfig η) (layerId : Nat) (vllmBlockIds : List VllmBlock) :
    List (List UInt64) :=
  vllmBlockIds.map fun v =>
    ((cfg.kvCaches.filter fun kv => kv.layerId = layerId).flatMap KvLayer.tensors).map fun t =>
      t.stride * UInt64.ofNat v + t.ptr

/-- The keys a request is loaded under. -/
def WorkerConfig.loadKeys (cfg : WorkerConfig η) (d : RequestDispatchMeta η) : List η :=
  (cfg.rewriteLoads d).loadBlockIds.1

/-- The submission of a request's load in a layer: all its blocks, with the shard index and the
pointers of the layer. -/
def WorkerConfig.loadAction (cfg : WorkerConfig η) (x : ReqId × RequestDispatchMeta η)
    (layerId : Nat) (task : Option Task) : Action η :=
  .loadData layerId x.1 (cfg.loadKeys x.2) (List.replicate x.2.loadBlockIds.1.length layerId)
    (cfg.layerPtrs layerId x.2.loadBlockIds.2) task

/-- What the loads of a step have to come to. -/
structure LoadedOrInvalid (cfg : WorkerConfig η) (metadata : ConnectorMetadata η)
    (c : LayerWiseConnector η) : Prop where
  /-- Everything is loaded layer by layer, each before the layer runs, or reported as invalid. -/
  complete : ∀ x ∈ loads metadata,
    (∀ l ∈ cfg.layerIds, ∃ t, [cfg.loadAction x l (some t), .waitLoad x.1 t true, .forward l].Sublist
      c.trace) ∨ ∀ v ∈ x.2.loadBlockIds.2, v ∈ c.invalidBlockIds
  /-- Nothing is submitted for a request after its first failure. -/
  none_after : ∀ req, c.trace.Pairwise fun a b => a.failsFor req → b.loadsFor req = false
  /-- Every task is waited for exactly once. -/
  once : ∀ a ∈ c.trace, ∀ req t, a.loadsFor req → a.submits t →
    c.trace.countP (Action.waitsFor t) = 1

/-- What the end of a step has to come to. -/
structure SaveDone (cfg : WorkerConfig η) (c : LayerWiseConnector η) : Prop where
  /-- Every dump task is waited for exactly once. -/
  drained : ∀ layer ids shards ptrs t, .dumpData layer ids shards ptrs (some t) ∈ c.trace →
    c.trace.countP (Action.waitsFor t) = 1
  isSave : c.isSave = false
  dumpTasks : c.dumpTasks = []
  dumpTotalPtrs : c.dumpTotalPtrs = none
  /-- The next step does what it does on a connector that has just been made. -/
  next : ∀ e, (c.runStep cfg e).trace = (LayerWiseConnector.start.runStep cfg e).trace

/-- The worker has something to dump in the step. -/
def WorkerConfig.Saves (cfg : WorkerConfig η) (metadata : ConnectorMetadata η) : Prop :=
  ¬(cfg.isMla = true ∧ cfg.tpRank % cfg.tpSize ≠ 0) ∧ dumpEntries metadata ≠ []

/-- Of the layers with a dump task only the last one, in the order of `kv_caches`, may have a wait that
fails. -/
def OnlyLastWaitFails (cfg : WorkerConfig η) (e : LayerWiseConnector.Step η) : Prop :=
  cfg.Saves e.metadata → (cfg.kvCaches.map KvLayer.name).Pairwise fun a b =>
    e.outcomes.submitDump a = true → e.outcomes.submitDump b = true → e.outcomes.waitDump a = true

end UnifiedCache.Connector
