import UnifiedCache.Infra.ThreadPool
import UnifiedCache.Lib.Machine
import UnifiedCache.Posix.TransQueue

/-!
# Prefix lookup

`SpaceManager::LookupOnPrefix` of the posix store: a call cuts its list of blocks into `nWorker`
strided slices, pushes one context per slice into a thread pool and waits on a latch. The workers scan
their slices and lower the shared `firstFail`; the monitor of the pool runs `OnLookupPrefixTimeout`
for a context that takes too long, while the worker it has given up on goes on.

Any number of calls share the pool. The archived files are fixed; `compare_exchange_weak` fails
spuriously whenever the environment says so.
-/

open Lib UnifiedCache.Infra

namespace UnifiedCache.Posix

/-- What the lookup service reads of the configuration. -/
structure LookupConfig where
  lookupConcurrency : Nat
  timeoutMs : Nat
  /-- `Run` refuses a pool without workers. -/
  worker_pos : 0 < lookupConcurrency

/-- One worker and a timeout. -/
def LookupConfig.small : LookupConfig := ⟨1, 30000, Nat.one_pos⟩

/-- The codes of `Status` a lookup comes across. -/
inductive Status where
  | ok
  | timeout
  | outOfMemory
deriving DecidableEq, Repr

/-- Where a caller stands in `LookupOnPrefix`. -/
inductive LookupPc where
  /-- Before the `Push` of the slice that starts at `first`. -/
  | push (first : Nat)
  /-- In `waiter->Wait()`. -/
  | wait
  /-- Before `status->load()`. -/
  | status
  /-- Before `firstFail->load()`. -/
  | firstFail
  | returned (r : Int)
  | failed (status : Status)
deriving DecidableEq, Repr

/-- A call of `LookupOnPrefix`: its list and what its contexts share. -/
structure LookupCall where
  blocks : List BlockId
  firstFail : Nat
  status : Status
  /-- The counter of the latch. -/
  waiter : Nat
  pc : LookupPc
deriving DecidableEq, Repr

/-- `PrefixLookupContext`: the call it belongs to and where its slice begins. -/
structure PrefixLookupContext where
  call : Nat
  first : Nat
deriving DecidableEq, Repr

/-- Where a worker stands in `OnLookupPrefix`; `i` is the variable of the loop. -/
inductive ScanPc where
  | enter
  /-- Before `ctx.status->load()`. -/
  | status (i : Nat)
  /-- Before `ctx.firstFail->load()`. -/
  | firstFail (i : Nat)
  /-- Before `Lookup(ctx.blocks + i)`. -/
  | lookup (i : Nat)
  /-- The block is missing: before the second `ctx.firstFail->load()`. -/
  | reload (i : Nat)
  /-- At the head of the `while` loop. -/
  | exchange (i cur : Nat)
  /-- Before `ctx.waiter->Done()`. -/
  | done
deriving DecidableEq, Repr

/-- Where the monitor stands in `OnLookupPrefixTimeout`. -/
inductive ExpirePc where
  /-- Before `ctx.status->compare_exchange_weak`. -/
  | exchange
  /-- Before `ctx.waiter->Done()`. -/
  | done
deriving DecidableEq, Repr

/-- The lookup service and its callers. -/
structure LookupState where
  /-- The calls made so far have the numbers below. -/
  nextCall : Nat
  calls : Nat → LookupCall
  pool : ThreadPool PrefixLookupContext ScanPc ExpirePc

/-! ## Steps -/

variable (cfg : LookupConfig) (archived : BlockId → Bool)

/-- `Lookup(block)`: the file of the block is there. -/
def LookupCall.lookup (call : LookupCall) (i : Nat) : Bool := (call.blocks[i]?.map archived).getD false

/-- `waiter->Done()`: the counter never goes below zero. -/
def LookupCall.done (call : LookupCall) : LookupCall := { call with waiter := call.waiter - 1 }

/-- The head of the loop of `OnLookupPrefix`. -/
def LookupCall.loop (call : LookupCall) (i : Nat) : ScanPc :=
  if i < call.blocks.length then .status i else .done

/-- `OnLookupPrefix`: one access to what the contexts share. `none` for the place means that the
function has returned. -/
def onLookupPrefix (spurious : Bool) (first : Nat) (call : LookupCall) :
    ScanPc → LookupCall × Option ScanPc
  | .enter => (call, some (call.loop first))
  | .status i => (call, some (if call.status ≠ .ok then .done else .firstFail i))
  | .firstFail i => (call, some (if call.firstFail < i then .done else .lookup i))
  | .lookup i =>
    (call, some (if call.lookup archived i then call.loop (i + cfg.lookupConcurrency) else .reload i))
  | .reload i => (call, some (.exchange i call.firstFail))
  | .exchange i cur =>
    if i < cur then
      if call.firstFail = cur ∧ spurious = false then
        ({ call with firstFail := i }, some .done)
      else
        (call, some (.exchange i call.firstFail))
    else
      (call, some .done)
  | .done => (call.done, none)

/-- `OnLookupPrefixTimeout`. -/
def onLookupPrefixTimeout (spurious : Bool) (call : LookupCall) :
    ExpirePc → LookupCall × Option ExpirePc
  | .exchange =>
    if call.status = .ok ∧ spurious = false then ({ call with status := .timeout }, some .done)
    else (call, some .done)
  | .done => (call.done, none)

/-- The next step of `LookupOnPrefix`, with the contexts it pushes. -/
def lookupOnPrefix (c : Nat) (call : LookupCall) : Option (LookupCall × List PrefixLookupContext) :=
  match call.pc with
  | .push first =>
    if first < cfg.lookupConcurrency then
      some ({ call with pc := .push (first + 1) }, [⟨c, first⟩])
    else
      some ({ call with pc := .wait }, [])
  | .wait => if call.waiter = 0 then some ({ call with pc := .status }, []) else none
  | .status =>
    if call.status ≠ .ok then some ({ call with pc := .failed call.status }, [])
    else some ({ call with pc := .firstFail }, [])
  | .firstFail => some ({ call with pc := .returned ((call.firstFail : Int) - 1) }, [])
  | .returned _ | .failed _ => none

/-- A new call up to its first `Push`; `oom` says that the allocations fail. -/
def LookupCall.enter (blocks : List BlockId) (oom : Bool) : LookupCall where
  blocks := blocks
  firstFail := blocks.length
  status := .ok
  waiter := cfg.lookupConcurrency
  pc := if blocks.length = 0 then .returned (-1) else if oom then .failed .outOfMemory else .push 0

inductive LookupEvent where
  /-- A thread calls `LookupOnPrefix`. -/
  | call (blocks : List BlockId) (oom : Bool)
  /-- The next step of the caller. -/
  | caller (c : Nat)
  /-- The next step of the worker at place `i`. -/
  | worker (i : Nat) (spurious : Bool)
  /-- The next step of the monitor. -/
  | monitor (overdue added spurious : Bool)

namespace LookupState

/-- Replaces one call. -/
def setCall (s : LookupState) (c : Nat) (call : LookupCall) : LookupState :=
  { s with calls := Function.update s.calls c call }

/-- Replaces the pool. -/
def setPool (s : LookupState) (b : ThreadPool PrefixLookupContext ScanPc ExpirePc) : LookupState :=
  { s with pool := b }

/-- The next step of a worker. -/
def workerStep (i : Nat) (spurious : Bool) (s : LookupState) : Option LookupState :=
  match s.pool.threads[i]? with
  | none => none
  | some w =>
    match w.pc with
    | .run ctx p =>
      let (call, p') := onLookupPrefix cfg archived spurious ctx.first (s.calls ctx.call) p
      let pc := match p' with
        | some p' => .run ctx p'
        | none => .ret ctx
      some ((s.setCall ctx.call call).setPool (s.pool.setWorker i { w with pc := pc }))
    | _ => (s.pool.workerStep .enter i).map s.setPool

/-- The next step of the monitor. -/
def monitorStep (overdue added spurious : Bool) (s : LookupState) : Option LookupState :=
  if cfg.timeoutMs = 0 then none
  else
    match s.pool.monitor with
    | .timeout it ctx p =>
      let (call, p') := onLookupPrefixTimeout spurious (s.calls ctx.call) p
      let pc := match p' with
        | some p' => .timeout it ctx p'
        | none => .stop it
      some ((s.setCall ctx.call call).setPool { s.pool with monitor := pc })
    | _ => (s.pool.monitorStep cfg.lookupConcurrency .exchange overdue added).map s.setPool

/-- The next step of a caller. -/
def callerStep (c : Nat) (s : LookupState) : Option LookupState :=
  if c < s.nextCall then
    (lookupOnPrefix cfg c (s.calls c)).map fun (call, ctxs) =>
      (s.setCall c call).setPool (s.pool.setQueue (s.pool.queue.push ctxs))
  else
    none

/-- One event. -/
def step (s : LookupState) : LookupEvent → Option LookupState
  | .call blocks oom =>
    some { s.setCall s.nextCall (.enter cfg blocks oom) with nextCall := s.nextCall + 1 }
  | .caller c => s.callerStep cfg c
  | .worker i spurious => s.workerStep cfg archived i spurious
  | .monitor overdue added spurious => s.monitorStep cfg overdue added spurious

/-- The service after `Setup`. -/
def start : LookupState where
  nextCall := 0
  calls := fun _ => .enter cfg [] false
  pool := .start cfg.lookupConcurrency

end LookupState

/-- The lookup service over fixed files. -/
def lookupMachine : Machine LookupState LookupEvent where
  init s := s = .start cfg
  step := LookupState.step cfg archived

/-- `compare_exchange_weak` of `OnLookupPrefixTimeout` does not fail spuriously in this step. -/
def TimeoutReported (s : LookupState) : LookupEvent → Prop
  | .monitor _ _ spurious =>
    match s.pool.monitor with
    | .timeout _ ctx .exchange => (s.calls ctx.call).status = .ok → spurious = false
    | _ => True
  | _ => True

instance (s : LookupState) (e : LookupEvent) : Decidable (TimeoutReported s e) := by
  unfold TimeoutReported
  split
  · split <;> infer_instance
  · infer_instance

/-! ## Lookup block by block -/

/-- What `Lookup(blocks, num)` makes of the index `LookupOnPrefix` returns: `num` flags, those up to
the index set one after the other. -/
def lookupFlags (num : Nat) (index : Int) : List Bool :=
  (List.range (index + 1).toNat).foldl (fun results i => results.set i true)
    (List.replicate num false)

/-- What `Lookup(blocks, num)` returns once its call of `LookupOnPrefix` has. -/
def LookupCall.result (call : LookupCall) : Option (Except Status (List Bool)) :=
  match call.pc with
  | .returned index => some (.ok (lookupFlags call.blocks.length index))
  | .failed status => some (.error status)
  | .push _ | .wait | .status | .firstFail => none

/-- The monitor is running `OnLookupPrefixTimeout`. -/
def LookupState.expiring (s : LookupState) : Bool :=
  match s.pool.monitor with
  | .timeout _ _ _ => true
  | _ => false

/-- No timeout of the lookup service is under way. -/
def LookupInTime (s : LookupState) (_ : LookupEvent) : Prop := s.expiring = false

instance (s : LookupState) (e : LookupEvent) : Decidable (LookupInTime s e) :=
  inferInstanceAs (Decidable (s.expiring = false))

/-- No block of the list that is there comes after one that is not. -/
def HitsFirst (archived : BlockId → Bool) (blocks : List BlockId) : Prop :=
  blocks.Pairwise fun a b => archived b = true → archived a = true

end UnifiedCache.Posix
