import UnifiedCache.Esa.ReqState
import UnifiedCache.Lib.Machine
import Mathlib.Data.Finset.SDiff
import Mathlib.Data.Finset.Range

/-!
# The slots of ESA on a worker

A worker has a pool of slots for each layer of the model and, for each request, a list of states with one
place for each layer. It runs some of the layers only when the model is spread over a pipeline. In a
forward pass every layer it runs begins and finishes its attention for every request of the batch; the
state of a layer is made when the attention begins, and it takes its slots at the end of the last chunk.
A request that was preempted gets new states. Requests finish between the passes.
-/

open Lib Lib.BlockCache
open UnifiedCache.Sparse (getSparseRange)

namespace UnifiedCache.Esa

variable {η ρ : Type}

/-! ## The pool -/

/-- `ReprePool`. -/
structure ReprePool where
  freeSlots : Finset Nat
  allocated : Finset Nat

namespace ReprePool

/-- A new pool. -/
def new (numSlots : Nat) : ReprePool := ⟨Finset.range numSlots, ∅⟩

/-- `allocate`, where the set of the free slots is iterated over in this order. -/
def allocate (pool : ReprePool) (order : List Nat) (numNewSlots : Int) :
    Option (ReprePool × List Nat) :=
  if order.Nodup ∧ order.toFinset = pool.freeSlots ∧ numNewSlots ≤ pool.freeSlots.card then
    let allocated := Gsa.Blocks.slice order 0 numNewSlots
    some (⟨pool.freeSlots \ allocated.toFinset, pool.allocated ∪ allocated.toFinset⟩, allocated)
  else none

/-- `free`. -/
def free (pool : ReprePool) (slots : List Nat) : ReprePool :=
  ⟨pool.freeSlots ∪ slots.toFinset, pool.allocated \ slots.toFinset⟩

end ReprePool

/-! ## The worker -/

/-- `ReqStatePerLayer`, as far as its slots go. -/
structure LayerState (ρ : Type) where
  layerId : Nat
  slots : List Nat
  slotsToRelativeIndexes : List (Nat × Nat)
  sparseRange : Int
  step : Nat
  /-- The representations of the blocks of the request when it took its slots; no code reads them. -/
  blockRepre : List ρ

/-- A new `ReqStatePerLayer`. -/
def LayerState.new (layerId : Nat) : LayerState ρ := ⟨layerId, [], [], 0, 0, []⟩

deriving instance DecidableEq for ReqMeta

/-- A request in a batch. -/
structure BatchMeta (η : Type) extends ReqMeta η where
  requestId : Nat
  isPreempt : Bool
deriving DecidableEq

/-- `ESA` on a worker: `layer_pools`, `data` and `req_states`. -/
structure Worker (ρ : Type) where
  layerPools : Nat → ReprePool
  data : Nat → Nat → ρ
  reqStates : Nat → Option (List (Option (LayerState ρ)))

variable (cfg : Config) (totalNumHiddenLayers : Nat) (w : Worker ρ) (m : BatchMeta η) (layerId : Nat)

namespace Worker

/-- `layer_state.repre_pool.free(layer_state.slots)`. -/
def freeSlots (layerPools : Nat → ReprePool) (layerState : LayerState ρ) : Nat → ReprePool :=
  Function.update layerPools layerState.layerId
    ((layerPools layerState.layerId).free layerState.slots)

/-- The preempted state is given up. -/
def dropPreempted : Option (Worker ρ) :=
  if m.isPreempt then do
    let states ← w.reqStates m.requestId
    let place ← states[layerId]?
    let layerState ← place
    some { w with
      layerPools := freeSlots w.layerPools layerState
      reqStates := Function.update w.reqStates m.requestId (some (states.set layerId none)) }
  else some w

/-- `get_or_create_layerwise_req_state`. -/
def getOrCreateLayerwiseReqState : Option (Worker ρ) := do
  let w ← w.dropPreempted m layerId
  let states := (w.reqStates m.requestId).getD (List.replicate totalNumHiddenLayers none)
  let place ← states[layerId]?
  let states := if place.isNone then states.set layerId (some (.new layerId)) else states
  some { w with reqStates := Function.update w.reqStates m.requestId (some states) }

/-- `block_repre_data` of a state, where a block has this representation now: the state with its slots,
the pool and the data of the layer. -/
def blockRepreData (layerState : LayerState ρ) (m : ReqMeta η) (order : List Nat) (repre : Nat → ρ) :
    Option (LayerState ρ × ReprePool × (Nat → ρ)) := do
  let sparseRange := getSparseRange cfg.initWindowSz cfg.localWindowSz m.numPromptTokens cfg.blockSize
  let vllmBlockIdsDump :=
    Gsa.Blocks.slice m.vllmBlockIds cfg.initWindowSz (cfg.initWindowSz + sparseRange)
  -- No blocks cannot be reshaped to `(0, -1)`.
  if vllmBlockIdsDump = [] then none
  else
    let (pool, newSlots) ← (w.layerPools layerState.layerId).allocate order sparseRange
    let data ← indexPut (w.data layerState.layerId) newSlots (vllmBlockIdsDump.map repre)
    some ({ layerState with
      sparseRange
      slotsToRelativeIndexes := (newSlots.zipIdx layerState.slots.length).foldl
        (fun d p => Dict.set d p.1 p.2) layerState.slotsToRelativeIndexes
      slots := layerState.slots ++ newSlots
      blockRepre := m.vllmBlockIds.map repre }, pool, data)

/-- `update_req_state_attention_end`; later steps retrieve by the slots, and leave them. -/
def attentionFinished (order : List Nat) (repre : Nat → ρ) : Option (Worker ρ) := do
  let states ← w.reqStates m.requestId
  let place ← states[layerId]?
  let layerState ← place
  if layerState.step = 0 ∧ !m.isLastChunk then some w
  else if layerState.step = 0 then do
    let (layerState, pool, data) ← w.blockRepreData cfg layerState m.toReqMeta order repre
    some ⟨Function.update w.layerPools layerState.layerId pool,
      Function.update w.data layerState.layerId data,
      Function.update w.reqStates m.requestId
        (some (states.set layerId (some { layerState with step := layerState.step + 1 })))⟩
  else
    some ⟨w.layerPools, w.data, Function.update w.reqStates m.requestId
      (some (states.set layerId (some { layerState with step := layerState.step + 1 })))⟩

/-- `request_finished_in_worker`. -/
def requestFinishedInWorker (requestId : Nat) : Option (Worker ρ) :=
  match w.reqStates requestId with
  | none => some w
  | some states => do
    let layerPools ← states.foldlM (fun pools place => do
      let layerState ← place
      some (freeSlots pools layerState)) w.layerPools
    some { w with layerPools, reqStates := Function.update w.reqStates requestId none }

/-- The state of a request at a layer, if there is one. -/
def live (r l : Nat) : Option (LayerState ρ) := (w.reqStates r).bind fun states => states[l]?.join

/-- The request has taken its slots in every one of the layers: from then on its table may be
compressed. -/
def decodes (layers : List Nat) : Bool :=
  !m.isPreempt && layers.all fun layerId => (w.live m.requestId layerId).any (·.step ≠ 0)

end Worker

/-! ## Runs -/

/-- What a layer does for a request in a forward pass. -/
inductive Action (η : Type) where
  | begin (layerId : Nat) (m : BatchMeta η)
  | finished (layerId : Nat) (m : BatchMeta η)
deriving DecidableEq

/-- A worker in a forward pass, with what is left to do in it. -/
structure WorkerRun (η ρ : Type) where
  worker : Worker ρ
  todo : List (Action η)

/-- What can happen on a worker. -/
inductive Event (η ρ : Type) where
  | schedule (batch : List (BatchMeta η)) (program : List (Action η))
  | next (order : List Nat) (repre : Nat → ρ)
  | finish (requestId : Nat)

/-- What the layers do in a forward pass over a batch. -/
def passActions (layers : List Nat) (batch : List (BatchMeta η)) : List (Action η) :=
  layers.flatMap fun layerId => batch.map (.begin layerId) ++ batch.map (.finished layerId)

/-- A request has blocks for the tokens that are computed up to the end of the pass. -/
def BatchMeta.Fits (m : BatchMeta η) : Prop :=
  m.numComputedTokens + m.numScheduledTokens ≤ m.vllmBlockIds.length * cfg.blockSize

instance : Decidable (m.Fits cfg) := by
  unfold BatchMeta.Fits
  infer_instance

/-- The prompt has blocks for both windows. -/
def BatchMeta.WindowsFit (m : BatchMeta η) : Prop :=
  cfg.initWindowSz + cfg.localWindowSz ≤ m.numPromptTokens ⌈/⌉ cfg.blockSize

/-- The next action of the pass. -/
def act (order : List Nat) (repre : Nat → ρ) : Action η → Option (Worker ρ)
  | .begin layerId m => w.getOrCreateLayerwiseReqState totalNumHiddenLayers m layerId
  | .finished layerId m => w.attentionFinished cfg m layerId order repre

/-- A worker that runs these layers. -/
def workerMachine [DecidableEq η] (layers : List Nat) (numSlots : Nat) (data : Nat → Nat → ρ) :
    Machine (WorkerRun η ρ) (Event η ρ) where
  init s := s = ⟨⟨fun _ => .new numSlots, data, fun _ => none⟩, []⟩
  step s
    | .schedule batch program =>
      if s.todo.isEmpty ∧ (batch.map (·.requestId)).Nodup ∧ (∀ m ∈ batch, m.Fits cfg ∨ s.worker.decodes m layers = true) ∧
          program.Perm (passActions layers batch) then
        some { s with todo := program }
      else none
    | .next order repre =>
      match s.todo with
      | [] => none
      | action :: todo => do
        let worker ← act cfg totalNumHiddenLayers s.worker order repre action
        some ⟨worker, todo⟩
    | .finish requestId =>
      if s.todo.isEmpty then do
        let worker ← s.worker.requestFinishedInWorker requestId
        some { s with worker }
      else none

/-- Every request of a pass has a prompt with blocks for both windows, as `min_blocks` gives it if it is
as large as these together. -/
def WindowsFit (_s : WorkerRun η ρ) : Event η ρ → Prop
  | .schedule batch _ => ∀ m ∈ batch, m.WindowsFit cfg
  | _ => True

end UnifiedCache.Esa
