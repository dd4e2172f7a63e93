import UnifiedCache.Connector.Dispatch

/-!
# Loading and dumping around the forward pass

The worker side of `UCMDirectConnector` and `UCMLayerWiseConnector` in one step: what is to be loaded
is loaded before the forward pass or layer by layer within it, and what is to be dumped is dumped
after it or layer by layer. A load that fails leaves its blocks in `_invalid_block_ids`; the forward
pass runs over them all the same.

A slot of a block of the GPU holds, at each layer, the keys and values of one token. What they are is
said by their origin (`Cell`), so that it can be said whether they are those of a given token of a
given request. What a request computes in a layer is right when everything it has read in the layers
before it was.
-/

namespace UnifiedCache.Connector

variable {η : Type}

/-! ## The GPU -/

/-- The keys and values in a slot of a block, at one layer. -/
inductive Cell (η : Type) where
  /-- Nothing in particular. -/
  | garbage
  /-- Computed from valid ones, for the last of these tokens behind the others. -/
  | computed (tokens : List Token)
  /-- Loaded from this slot of the block stored under the hash. -/
  | loaded (hash : η) (slot : Nat)
deriving DecidableEq

/-- One layer: blocks and slots. -/
abbrev Layer (η : Type) := VllmBlock → Nat → Cell η

/-- The layers. -/
abbrev Gpu (η : Type) := Nat → Layer η

/-- The cell holds the keys and values of token `p`. -/
def Cell.Valid (cfg : Config η) (tokens : List Token) (p : Nat) : Cell η → Prop
  | .garbage => False
  | .computed read => read = tokens.take (p + 1)
  | .loaded hash slot => hash = blockHash cfg tokens (p / cfg.blockSize) ∧
      (p / cfg.blockSize + 1) * cfg.blockSize ≤ tokens.length ∧ slot = p % cfg.blockSize

instance [DecidableEq η] (cfg : Config η) (tokens : List Token) (p : Nat) :
    (c : Cell η) → Decidable (c.Valid cfg tokens p)
  | .garbage => .isFalse id
  | .computed read => inferInstanceAs (Decidable (read = tokens.take (p + 1)))
  | .loaded hash slot => inferInstanceAs (Decidable (hash = blockHash cfg tokens (p / cfg.blockSize) ∧
      (p / cfg.blockSize + 1) * cfg.blockSize ≤ tokens.length ∧ slot = p % cfg.blockSize))

/-- Token `p` of a request with this block table has its keys and values in the layer. -/
def Layer.Valid (cfg : Config η) (g : Layer η) (tokens : List Token) (table : List VllmBlock)
    (p : Nat) : Prop :=
  ∃ v ∈ table[p / cfg.blockSize]?, (g v (p % cfg.blockSize)).Valid cfg tokens p

instance [DecidableEq η] (cfg : Config η) (g : Layer η) (tokens : List Token)
    (table : List VllmBlock) (p : Nat) : Decidable (g.Valid cfg tokens table p) :=
  inferInstanceAs (Decidable
    (∃ v ∈ table[p / cfg.blockSize]?, (g v (p % cfg.blockSize)).Valid cfg tokens p))

/-! ## The worker -/

/-- A request in the forward pass, with the tokens `start ≤ p < stop`. -/
structure Sequence where
  id : ReqId
  tokens : List Token
  table : List VllmBlock
  start : Nat
  stop : Nat

/-- The token a slot of a block belongs to, when it is one of the forward pass. -/
def Sequence.position (blockSize : Nat) (q : Sequence) (v : VllmBlock) (i : Nat) : Option Nat :=
  (q.table.idxOf? v).bind fun k =>
    if i < blockSize ∧ q.start ≤ k * blockSize + i ∧ k * blockSize + i < q.stop then
      some (k * blockSize + i)
    else none

/-- What a call of `dump_data` is given: `layer` is the last layer it covers, and `gpu` is what the
GPU holds at this time. -/
structure DumpCall (η : Type) where
  layer : Nat
  entries : List (ReqId × List η × List VllmBlock)
  gpu : Gpu η

/-- The worker within a step. -/
structure Worker (η : Type) where
  gpu : Gpu η
  /-- The requests that have read something wrong. -/
  tainted : List ReqId
  invalidBlockIds : List VllmBlock
  /-- `_failure_req_ids`; the direct connector has no such set. -/
  failureReqIds : List ReqId
  /-- `load_tasks` by layer. -/
  loadTasks : Nat → ConnectorMetadata η
  /-- The calls of `dump_data`. -/
  dumps : List (DumpCall η)

/-- Whether the loads of a request in a layer can be submitted and end well. -/
structure Outcomes where
  submit : Nat → ReqId → Bool
  wait : Nat → ReqId → Bool

/-- What is paired in `load_block_ids`. -/
def RequestDispatchMeta.loadPairs (d : RequestDispatchMeta η) : List (η × VllmBlock) :=
  d.loadBlockIds.1.zip d.loadBlockIds.2

/-- The requests with something to load. -/
def loads (metadata : ConnectorMetadata η) : ConnectorMetadata η :=
  metadata.filter fun x => !x.2.loadBlockIds.1.isEmpty

/-- The blocks of failed loads. -/
def failedBlocks (failed : ConnectorMetadata η) : List VllmBlock :=
  failed.flatMap fun x => x.2.loadBlockIds.2

/-- A layer after loads of which some are done and some failed. -/
def Layer.transfer (g : Layer η) (done failed : ConnectorMetadata η) : Layer η := fun v i =>
  match (done.flatMap fun x => x.2.loadPairs).find? fun pair => pair.2 = v with
  | some pair => .loaded pair.1 i
  | none => if v ∈ failedBlocks failed then .garbage else g v i

/-- Notes failed loads. -/
def Worker.fail (w : Worker η) (failed : ConnectorMetadata η) : Worker η :=
  { w with
    invalidBlockIds := w.invalidBlockIds ++ failedBlocks failed
    failureReqIds := w.failureReqIds ++ failed.map Prod.fst }

/-- What is to be dumped. -/
def dumpEntries (metadata : ConnectorMetadata η) : List (ReqId × List η × List VllmBlock) :=
  (metadata.filter fun x => !x.2.dumpBlockIds.1.isEmpty).map fun x => (x.1, x.2.dumpBlockIds)

/-- A call of `dump_data`, if there is anything to dump. -/
def Worker.dumpData (w : Worker η) (metadata : ConnectorMetadata η) (layer : Nat) : Worker η :=
  if (dumpEntries metadata).isEmpty then w
  else { w with dumps := w.dumps ++ [⟨layer, dumpEntries metadata, w.gpu⟩] }

/-! ## The forward pass -/

/-- A layer with the keys and values of the forward pass written to it. -/
def Layer.write (blockSize : Nat) (g : Layer η) (batch : List Sequence) (tainted : List ReqId) :
    Layer η := fun v i =>
  match batch.findSome? fun q => (q.position blockSize v i).map fun p => (q, p) with
  | some (q, p) => if q.id ∈ tainted then .garbage else .computed (q.tokens.take (p + 1))
  | none => g v i

/-- The request reads nothing wrong in the layer. -/
def Sequence.ReadsValid (cfg : Config η) (q : Sequence) (g : Layer η) : Prop :=
  ∀ p < q.start, g.Valid cfg q.tokens q.table p

instance [DecidableEq η] (cfg : Config η) (q : Sequence) (g : Layer η) :
    Decidable (q.ReadsValid cfg g) :=
  inferInstanceAs (Decidable (∀ p < q.start, g.Valid cfg q.tokens q.table p))

/-- The forward pass through a layer: the requests write their keys and values, then they read. -/
def Worker.forwardLayer [DecidableEq η] (cfg : Config η) (batch : List Sequence) (l : Nat)
    (w : Worker η) : Worker η :=
  let g := (w.gpu l).write cfg.blockSize batch w.tainted
  { w with
    gpu := Function.update w.gpu l g
    tainted := w.tainted ++ (batch.filter fun q => !decide (q.ReadsValid cfg g)).map Sequence.id }

/-! ## The connectors -/

namespace Direct

/-- `UCMDirectConnector.start_load_kv`: one task a request, for all layers. -/
def startLoadKv (metadata : ConnectorMetadata η) (o : Outcomes) (w : Worker η) : Worker η :=
  let requestToTask := (loads metadata).filter fun x => o.submit 0 x.1
  let failed := (loads metadata).filter (fun x => !o.submit 0 x.1) ++
    requestToTask.filter fun x => !o.wait 0 x.1
  let done := requestToTask.filter fun x => o.wait 0 x.1
  { w.fail failed with gpu := fun l => (w.gpu l).transfer done failed }

/-- `UCMDirectConnector.wait_for_save`. -/
def waitForSave (layers : Nat) (metadata : ConnectorMetadata η) (w : Worker η) : Worker η :=
  w.dumpData metadata (layers - 1)

/-- One step. -/
def run [DecidableEq η] (cfg : Config η) (layers : Nat) (metadata : ConnectorMetadata η)
    (batch : List Sequence) (o : Outcomes) (w : Worker η) : Worker η :=
  let w := startLoadKv metadata o w
  let w := (List.range layers).foldl (fun w l => w.forwardLayer cfg batch l) w
  waitForSave layers metadata w

end Direct

namespace LayerWise

/-- `_submit_request_load_tasks_for_layer`. -/
def submitRequestLoadTasksForLayer (metadata : ConnectorMetadata η) (o : Outcomes) (l : Nat)
    (w : Worker η) : Worker η :=
  let requestData := (loads metadata).filter fun x => x.1 ∉ w.failureReqIds
  let failed := requestData.filter fun x => !o.submit l x.1
  { w.fail failed with
    gpu := Function.update w.gpu l ((w.gpu l).transfer [] failed)
    loadTasks := Function.update w.loadTasks l (requestData.filter fun x => o.submit l x.1) }

/-- `UCMLayerWiseConnector.start_load_kv`. -/
def startLoadKv (metadata : ConnectorMetadata η) (o : Outcomes) (w : Worker η) : Worker η :=
  submitRequestLoadTasksForLayer metadata o 0 { w with loadTasks := fun _ => [], failureReqIds := [] }

/-- `wait_for_layer_load`: waits for the loads of the layer and submits those of the next one. -/
def waitForLayerLoad (layers : Nat) (metadata : ConnectorMetadata η) (o : Outcomes) (l : Nat)
    (w : Worker η) : Worker η :=
  let failed := (w.loadTasks l).filter fun x => !o.wait l x.1
  let done := (w.loadTasks l).filter fun x => o.wait l x.1
  let w := { w.fail failed with gpu := Function.update w.gpu l ((w.gpu l).transfer done failed) }
  if l + 1 < layers then submitRequestLoadTasksForLayer metadata o (l + 1) w else w

/-- `save_kv_layer`. -/
def saveKvLayer (metadata : ConnectorMetadata η) (l : Nat) (w : Worker η) : Worker η :=
  w.dumpData metadata l

/-- What happens at a layer. -/
def runLayer [DecidableEq η] (cfg : Config η) (layers : Nat) (metadata : ConnectorMetadata η)
    (batch : List Sequence) (o : Outcomes) (w : Worker η) (l : Nat) : Worker η :=
  saveKvLayer metadata l
    ((waitForLayerLoad layers metadata o l w).forwardLayer cfg batch l)

/-- One step. -/
def run [DecidableEq η] (cfg : Config η) (layers : Nat) (metadata : ConnectorMetadata η)
    (batch : List Sequence) (o : Outcomes) (w : Worker η) : Worker η :=
  (List.range layers).foldl (runLayer cfg layers metadata batch o) (startLoadKv metadata o w)

end LayerWise

/-- The two connectors. -/
inductive ConnectorKind where
  | direct
  | layerWise
deriving DecidableEq, Repr

/-- One step of the worker. -/
def runWorker [DecidableEq η] (kind : ConnectorKind) (cfg : Config η) (layers : Nat)
    (metadata : ConnectorMetadata η) (batch : List Sequence) (o : Outcomes) (g : Gpu η) : Worker η :=
  let w : Worker η := ⟨g, [], [], [], fun _ => [], []⟩
  match kind with
  | .direct => Direct.run cfg layers metadata batch o w
  | .layerWise => LayerWise.run cfg layers metadata batch o w

/-- How many tasks a request's load takes. -/
def ConnectorKind.tasks (layers : Nat) : ConnectorKind → Nat
  | .direct => 1
  | .layerWise => layers

/-- A submission of the request's load, or a wait for it, raises a `RuntimeError`. -/
def Fails (kind : ConnectorKind) (layers : Nat) (o : Outcomes) (id : ReqId) : Prop :=
  ∃ l < kind.tasks layers, (o.submit l id && o.wait l id) = false

instance (kind : ConnectorKind) (layers : Nat) (o : Outcomes) (id : ReqId) :
    Decidable (Fails kind layers o id) :=
  inferInstanceAs (Decidable (∃ l < kind.tasks layers, (o.submit l id && o.wait l id) = false))

end UnifiedCache.Connector
