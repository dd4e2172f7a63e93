import UnifiedCache.Cache.Pins
import UnifiedCache.Cache.Completion

/-!
# Counting the calls of `Done`

`Submit` raises the latch of a task to one, and `Done` is called from several places: by `Submit` when
the waiting queue is full, by the load dispatcher for a task that has failed, by the transfer thread
after the last shard of a task, and by the dump dispatcher. The machine of the store is run here with
a record of how often `Done` was called for each task.
-/

open Lib

namespace UnifiedCache.Cache

/-- The task whose `Done` is called in this step. -/
def Proc.doneOf (cfg : Config) (q : Proc) : Action → Option Nat
  | .submit .load _ _ =>
    if q.load.waiting.length + 1 < cfg.waitingQueueDepth then none else some q.tasks.nextId
  | .submit .dump _ _ =>
    if q.dump.waiting.length + 1 < cfg.waitingQueueDepth then none else some q.tasks.nextId
  | .loadDispatcher =>
    match q.load.dispatch with
    | .skip task | .failDone task _ => some task.id
    | _ => none
  | .loadTransfer =>
    match q.load.transfer with
    | .done st => if st.waiter then some st.taskHandle else none
    | _ => none
  | .dumpDispatcher =>
    match q.dump.dispatch with
    | .done task => some task.id
    | _ => none
  | _ => none

variable {n : Nat}

/-- The store, and how often `Done` was called for each task of each process. -/
structure Counted (n : Nat) where
  store : State n
  dones : Fin n → Nat → Nat

/-- The calls of `Done` after this step. -/
def Counted.count (cfg : Config) (c : Counted n) (e : Event n) (p : Fin n) (id : Nat) : Nat :=
  c.dones p id + if p = e.p ∧ (c.store.procs p).doneOf cfg e.act = some id then 1 else 0

/-- The store with the record. -/
def countedMachine (cfg : Config) (n : Nat) : Machine (Counted n) (Event n) where
  init c := (storeMachine cfg n).init c.store ∧ c.dones = fun _ _ => 0
  step c e := (c.store.step cfg e).map fun s => ⟨s, c.count cfg e⟩

/-- A step of the task is still to come, or a copy from or to the caller's memory is not
synchronised. -/
def Proc.Outstanding (q : Proc) (id : Nat) : Prop :=
  q.load.pipeline.Busy id ∨ q.dump.Busy id ∨ ∃ c ∈ q.dump.copies, c.task = id

/-- The task the dispatcher is about to go on with has shards. -/
def DispatchPc.HasShards (failureSet : Finset Nat) : DispatchPc → Prop
  | .check task => task.id ∉ failureSet → task.desc ≠ []
  | _ => True

instance (failureSet : Finset Nat) : (pc : DispatchPc) → Decidable (pc.HasShards failureSet)
  | .check task => inferInstanceAs (Decidable (task.id ∉ failureSet → task.desc ≠ []))
  | .idle | .skip _ | .get _ _ | .ready _ _ _ _ | .submit _ _ _ _ | .failInsert _ _ | .failDone _ _
  | .failDrop _ | .push _ _ _ => .isTrue trivial

/-- The load dispatcher does not go on with a task that has no shards. -/
def Proc.LoadHasShards (q : Proc) : Action → Prop
  | .loadDispatcher => q.load.dispatch.HasShards q.tasks.failureSet
  | _ => True

instance (q : Proc) : (act : Action) → Decidable (q.LoadHasShards act)
  | .loadDispatcher => inferInstanceAs (Decidable (q.load.dispatch.HasShards q.tasks.failureSet))
  | .submit _ _ _ | .waitBegin _ | .waitTimeout _ | .waitReturn _ | .loadTransfer | .dumpDispatcher
  | .dumper | .backendFinish _ _ => .isTrue trivial

/-- Load tasks have shards, and neither a load nor a dump fails while something of it is under way. -/
def DonesInTime (cfg : Config) (c : Counted n) (e : Event n) : Prop :=
  (c.store.procs e.p).LoadHasShards e.act ∧ LoadFailsAlone cfg c.store e ∧
    DumpFailsSynced cfg c.store e

instance (cfg : Config) (c : Counted n) (e : Event n) : Decidable (DonesInTime cfg c e) :=
  inferInstanceAs (Decidable (_ ∧ _ ∧ _))

end UnifiedCache.Cache
