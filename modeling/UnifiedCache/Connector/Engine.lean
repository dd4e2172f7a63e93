import UnifiedCache.Connector.Repair
import UnifiedCache.Connector.Worker
import Mathlib.Data.List.Perm.Basic

/-!
# Whole steps with failing loads

The engine: a scheduling step of `Dispatch`, the worker's part of it, and the repair of the patched
scheduler, which takes the blocks of failed loads, sets the requests that have them back and drops
their metadata.

Blocks are shared: the locally cached prefix of a request that starts may consist of blocks that other
requests have, also of such that get their contents in the same step. Only the blocks behind it are
new, and vLLM takes these from those no running request has.
-/

open Lib

namespace UnifiedCache.Connector

variable {η : Type}

/-! ## Steps -/

/-- An engine with its connector and the number of layers of the model. -/
structure Engine (η : Type) where
  cfg : Config η
  kind : ConnectorKind
  layers : Nat
  layers_pos : 0 < layers

/-- Two layers. -/
def Engine.small (kind : ConnectorKind) : Engine (List Token) where
  cfg := .small
  kind := kind
  layers := 2
  layers_pos := Nat.two_pos

/-- The engine between steps. -/
structure EngineState (η : Type) where
  scheduler : State η
  /-- `self.running`. -/
  running : List ReqId
  gpu : Gpu η
  /-- The calls of `dump_data` of the last step. -/
  dumps : List (DumpCall η)
  /-- The requests whose loads failed in it. -/
  failed : List ReqId

/-- An empty engine. -/
def EngineState.start : EngineState η := ⟨.start, [], fun _ _ _ => .garbage, [], []⟩

/-- The events of the engine. -/
inductive EngineEvent where
  /-- Anything the scheduler does between two steps. -/
  | scheduler (e : Event)
  /-- A step; `started` are the requests that start, in the order in which they join `self.running`,
  and `o` says which loads fail. -/
  | execute (out : SchedulerOutput) (started : List ReqId) (o : Outcomes)

/-- A request of the step in the forward pass. -/
def SchedulerOutput.sequence (out : SchedulerOutput) (requests : ReqId → Request) (item : Item) :
    Sequence :=
  let r := requests item.id
  ⟨item.id, r.allTokenIds, r.blockTable, r.numComputedTokens - out.numScheduledTokens item.id,
    r.numComputedTokens⟩

/-- The blocks of an item that are not cached locally. -/
def Item.fresh (blockSize : Nat) (requests : ReqId → Request) (item : Item) : List VllmBlock :=
  if item.kind = .running then item.blocks
  else item.blocks.drop ((requests item.id).numLocalTokens / blockSize)

/-- All new blocks of a step. -/
def SchedulerOutput.freshBlocks (out : SchedulerOutput) (blockSize : Nat)
    (requests : ReqId → Request) : List VllmBlock :=
  out.items.flatMap (Item.fresh blockSize requests)

/-- How vLLM hands out blocks: no block twice, and a new one to nobody else. -/
def Allocated (blockSize : Nat) (s : EngineState η) (requests : ReqId → Request)
    (out : SchedulerOutput) : Prop :=
  (out.freshBlocks blockSize requests).Nodup ∧
    (∀ v ∈ out.freshBlocks blockSize requests, ∀ id ∈ s.running,
      v ∉ (s.scheduler.requests id).blockTable) ∧
    ∀ item ∈ out.items, item.blocks.Nodup

instance (blockSize : Nat) (s : EngineState η) (requests : ReqId → Request)
    (out : SchedulerOutput) : Decidable (Allocated blockSize s requests out) :=
  inferInstanceAs (Decidable (_ ∧ _ ∧ _))

/-- The requests that start. -/
def SchedulerOutput.starting (out : SchedulerOutput) : List ReqId :=
  (out.items.filter fun item => item.kind ≠ .running).map Item.id

/-- `self.running` after an event of the scheduler. -/
def runningAfter (running : List ReqId) : Event → List ReqId
  | .preempt id => running.filter (· ≠ id)
  | .finish id => running.filter (· ≠ id)
  | _ => running

/-- The rest of a step, once it is scheduled. -/
def Engine.execute [DecidableEq η] (E : Engine η) (s : EngineState η) (t : State η)
    (out : SchedulerOutput) (started : List ReqId) (o : Outcomes) : EngineState η :=
  let w := runWorker E.kind E.cfg E.layers t.dispatched (out.items.map (out.sequence t.requests)) o
    s.gpu
  { scheduler := handleInvalidBlocks E.cfg.blockSize (s.running ++ started) w.invalidBlockIds t
    running := s.running ++ started
    gpu := w.gpu
    dumps := w.dumps
    failed := w.failureReqIds }

/-- One event. -/
def Engine.step [DecidableEq η] (E : Engine η) (s : EngineState η) :
    EngineEvent → Option (EngineState η)
  | .scheduler (.schedule _) => none
  | .scheduler e => (Connector.step E.cfg s.scheduler e).map fun t =>
      { s with scheduler := t, running := runningAfter s.running e, dumps := [], failed := [] }
  | .execute out started o => (Connector.step E.cfg s.scheduler (.schedule out)).bind fun t =>
      if Allocated E.cfg.blockSize s t.requests out ∧ started.Perm out.starting then
        some (E.execute s t out started o)
      else none

/-- The engine as a machine. -/
def Engine.machine [DecidableEq η] (E : Engine η) : Machine (EngineState η) EngineEvent where
  init s := s = .start
  step := E.step

/-! ## Valid dumps -/

/-- What is dumped of a request is valid: its load has not failed, and a block goes with its hash only
when it and all blocks before it hold valid keys and values in the layers done so far. -/
structure DumpOk (cfg : Config η) (s : EngineState η) (c : DumpCall η)
    (entry : ReqId × List η × List VllmBlock) : Prop where
  not_failed : entry.1 ∉ s.failed
  valid : ∀ pair ∈ entry.2.1.zip entry.2.2, ∃ j,
    pair.1 = blockHash cfg (s.scheduler.requests entry.1).allTokenIds j ∧
    (s.scheduler.requests entry.1).blockTable[j]? = some pair.2 ∧
    ∀ l ≤ c.layer, ∀ p < (j + 1) * cfg.blockSize,
      (c.gpu l).Valid cfg (s.scheduler.requests entry.1).allTokenIds
        (s.scheduler.requests entry.1).blockTable p

/-- What a running request counts as computed is valid, and no other one is to write there. -/
def Engine.Sound (E : Engine η) (s : EngineState η) (id : ReqId) : Prop :=
  let r := s.scheduler.requests id
  (∀ l < E.layers, ∀ p < r.numComputedTokens, (s.gpu l).Valid E.cfg r.allTokenIds r.blockTable p) ∧
    ∀ id' ∈ s.running, id' ≠ id → ∀ k < (s.scheduler.requests id').blockTable.length,
      ∀ v ∈ (s.scheduler.requests id').blockTable[k]?, v ∈ r.blockTable →
        (k + 1) * E.cfg.blockSize ≤ (s.scheduler.requests id').numComputedTokens

instance [DecidableEq η] (E : Engine η) (s : EngineState η) (id : ReqId) :
    Decidable (E.Sound s id) :=
  inferInstanceAs (Decidable (_ ∧ _))

/-- A locally cached block holds what it should, and nobody is to write to it. -/
def Engine.Settled (E : Engine η) (s : EngineState η) (t : State η) (out : SchedulerOutput)
    (r : Request) (k : Nat) : Prop :=
  (∀ l < E.layers, ∀ i < E.cfg.blockSize,
    (s.gpu l).Valid E.cfg r.allTokenIds r.blockTable (k * E.cfg.blockSize + i)) ∧
    ∀ v ∈ r.blockTable[k]?, v ∉ out.freshBlocks E.cfg.blockSize t.requests ∧
      ∀ id ∈ s.running, ∀ k' < (s.scheduler.requests id).blockTable.length,
        (s.scheduler.requests id).blockTable[k']? = some v →
          (k' + 1) * E.cfg.blockSize ≤ (s.scheduler.requests id).numComputedTokens

instance [DecidableEq η] (E : Engine η) (s : EngineState η) (t : State η) (out : SchedulerOutput)
    (r : Request) (k : Nat) : Decidable (E.Settled s t out r k) :=
  inferInstanceAs (Decidable (_ ∧ _))

/-- A locally cached block gets what it should hold in this step, from another request that is not
affected. -/
def Engine.Due (E : Engine η) (s : EngineState η) (t : State η) (out : SchedulerOutput)
    (invalid : List VllmBlock) (r : Request) (k : Nat) : Prop :=
  ∃ item ∈ out.items, ¬Affected E.cfg.blockSize invalid (t.requests item.id) ∧
    (if item.kind = .running then E.Sound s item.id
      else (t.requests item.id).numLocalTokens / E.cfg.blockSize ≤ k) ∧
    k < r.blockTable.length ∧ (t.requests item.id).blockTable[k]? = r.blockTable[k]? ∧
    (k + 1) * E.cfg.blockSize ≤ (t.requests item.id).numComputedTokens ∧
    (t.requests item.id).allTokenIds.take ((k + 1) * E.cfg.blockSize) =
      r.allTokenIds.take ((k + 1) * E.cfg.blockSize)

instance [DecidableEq η] (E : Engine η) (s : EngineState η) (t : State η) (out : SchedulerOutput)
    (invalid : List VllmBlock) (r : Request) (k : Nat) : Decidable (E.Due s t out invalid r k) :=
  inferInstanceAs (Decidable (∃ item ∈ out.items, _))

/-- The blocks of the loads that fail in a step. -/
def Engine.invalidBlocks (E : Engine η) (t : State η) (o : Outcomes) : List VllmBlock :=
  failedBlocks ((loads t.dispatched).filter fun x => Fails E.kind E.layers o x.1)

/-- A step in which failing loads do no harm. -/
structure Engine.FailsSafely (E : Engine η) (s : EngineState η) (t : State η)
    (out : SchedulerOutput) (started : List ReqId) (o : Outcomes) : Prop where
  /-- A request whose load fails is affected. -/
  covered : ∀ x ∈ loads t.dispatched, Fails E.kind E.layers o x.1 →
    Affected E.cfg.blockSize (E.invalidBlocks t o) (t.requests x.1)
  /-- Nothing is to be dumped of an affected request. -/
  silent : ∀ x ∈ t.dispatched, Affected E.cfg.blockSize (E.invalidBlocks t o) (t.requests x.1) →
    x.2.dumpBlockIds.1 = []
  /-- The others share only what an affected request has before its first invalid block. -/
  apart : ∀ id ∈ s.running ++ started,
    Affected E.cfg.blockSize (E.invalidBlocks t o) (t.requests id) →
    ∀ id' ∈ s.running ++ started,
      ¬Affected E.cfg.blockSize (E.invalidBlocks t o) (t.requests id') →
      ∀ k < (t.requests id).blockTable.length, ∀ v ∈ (t.requests id).blockTable[k]?,
        v ∈ (t.requests id').blockTable →
          ∀ b ∈ (t.requests id).blockTable.take (k + 1), b ∉ E.invalidBlocks t o
  /-- The locally cached blocks of the others that start are good. -/
  cached : ∀ item ∈ out.items, item.kind ≠ .running →
    ¬Affected E.cfg.blockSize (E.invalidBlocks t o) (t.requests item.id) →
    ∀ k < (t.requests item.id).numLocalTokens / E.cfg.blockSize,
      E.Settled s t out (t.requests item.id) k ∨
        E.Due s t out (E.invalidBlocks t o) (t.requests item.id) k

set_option synthInstance.maxSize 512 in
instance [DecidableEq η] (E : Engine η) (s : EngineState η) (t : State η) (out : SchedulerOutput)
    (started : List ReqId) (o : Outcomes) : Decidable (E.FailsSafely s t out started o) :=
  decidable_of_iff (_ ∧ _ ∧ _ ∧ _)
    ⟨fun h => ⟨h.1, h.2.1, h.2.2.1, h.2.2.2⟩,
      fun h => ⟨h.covered, h.silent, h.apart, h.cached⟩⟩

/-- A run without harm: failing loads do none, and a lookup that returns early does not leave
metadata in place with anything to load, or with part of the prompt still to be processed. -/
def Engine.Careful (E : Engine η) (s : EngineState η) : EngineEvent → Prop
  | .scheduler (.matched id numComputedTokens _) => ∀ m ∈ s.scheduler.requestsMeta id,
      numComputedTokens / E.cfg.blockSize <
        (s.scheduler.requests id).allTokenIds.length / E.cfg.blockSize ∨
      m.hbmHitBlockNum = m.totalHitBlockNum ∧
        (m.vllmBlockIds ≠ [] → m.numTokenIds ≤ m.tokenProcessed)
  | .scheduler _ => True
  | .execute out started o => ∀ t ∈ Connector.step E.cfg s.scheduler (.schedule out),
      E.FailsSafely s t out started o

instance [DecidableEq η] (E : Engine η) (s : EngineState η) :
    (e : EngineEvent) → Decidable (E.Careful s e)
  | .scheduler (.matched id _ _) =>
    inferInstanceAs (Decidable (∀ m ∈ s.scheduler.requestsMeta id, _))
  | .scheduler (.arrive _ _) => .isTrue trivial
  | .scheduler (.schedule _) => .isTrue trivial
  | .scheduler (.append _ _) => .isTrue trivial
  | .scheduler (.preempt _) => .isTrue trivial
  | .scheduler (.finish _) => .isTrue trivial
  | .execute out _ _ =>
    inferInstanceAs (Decidable (∀ t ∈ Connector.step E.cfg s.scheduler (.schedule out), _))

end UnifiedCache.Connector
