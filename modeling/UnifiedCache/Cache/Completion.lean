import UnifiedCache.Cache.Store
import UnifiedCache.Lib.Pipeline

/-!
# When a load task is complete

The load queue is a pipeline: the dispatcher cuts tasks into shards, the transfer thread takes the
shards in the same order, and the waiter of a task hangs on its last shard. `LoadQueue.pipeline` is
that view of the queue; the unsettled effects are the host-to-device copies that no stream has
synchronised.
-/

open Lib

namespace UnifiedCache.Cache

/-- The task the dispatcher has and of which no shard is in flight. -/
def DispatchPc.fresh : DispatchPc → Option Nat
  | .check task | .skip task | .failInsert task _ | .failDone task _ => some task.id
  | .idle | .get _ _ | .ready _ _ _ _ | .submit _ _ _ _ | .failDrop _ | .push _ _ _ => none

/-- The task of which the dispatcher is going to push more shards. -/
def DispatchPc.more : DispatchPc → Option Nat
  | .get task rest | .push task _ rest => if rest.isEmpty then none else some task.id
  | .ready task _ _ _ | .submit task _ _ _ => some task.id
  | .idle | .check _ | .skip _ | .failInsert _ _ | .failDone _ _ | .failDrop _ => none

/-- The shard the dispatcher is about to push. -/
def DispatchPc.shards : DispatchPc → List ShardTask
  | .push _ st _ => [st]
  | _ => []

/-- The shard the transfer thread works on, until it has called `Done`. -/
def TransferPc.shards : TransferPc → List ShardTask
  | .idle | .drop _ => []
  | .check st | .waitBackend st | .markReady st | .poll st | .pollFailed st | .h2d st | .sync st
  | .clear st _ | .fail st | .done st => [st]

/-- A shard of a task, and whether it carries the waiter. -/
def ShardTask.piece (st : ShardTask) : Nat × Bool := (st.taskHandle, st.waiter)

/-- The load queue as a pipeline. -/
def LoadQueue.pipeline (l : LoadQueue) : Pipeline where
  waiting := l.waiting.map TransTask.id
  fresh := l.dispatch.fresh
  more := l.dispatch.more
  pieces := (l.transfer.shards ++ l.running ++ l.dispatch.shards).map ShardTask.piece
  loose := l.copies.map Copy.task

/-- The task whose last shard is on its way to `Done`. -/
def TransferPc.finishing : TransferPc → Option Nat
  | .clear st _ | .fail st | .done st => if st.waiter then some st.taskHandle else none
  | _ => none

/-- The task the dump dispatcher works on, until it has called `Done`. -/
def DumpPc.task : DumpPc → Option TransTask
  | .idle => none
  | .check task | .waitEvent task | .get task _ _ | .skip task _ _ _ | .ready task _ _ _ _
  | .d2h task _ _ _ _ | .sync task _ | .markReady task _ _ | .submit task _ | .push task _ _
  | .unwind task _ | .insert task | .done task => some task

/-- The dump queue still has to call `Done` for the task. -/
def DumpQueue.Busy (d : DumpQueue) (id : Nat) : Prop :=
  (∃ task ∈ d.waiting, task.id = id) ∨ ∃ task, d.dispatch.task = some task ∧ task.id = id

/-! ## The condition -/

/-- The task whose last shard fails in this step of the transfer thread: the task is in the failure
set already, the backend load failed, or the copies or their synchronisation do. -/
def Proc.failsLast (cfg : Config) (env : Env) (q : Proc) : Option Nat :=
  match q.load.transfer with
  | .check st =>
    if st.waiter ∧ st.taskHandle ∈ q.tasks.failureSet then some st.taskHandle else none
  | .waitBackend st =>
    match q.waitBackend st.backendTaskHandle with
    | some (false, _) => if st.waiter then some st.taskHandle else none
    | _ => none
  | .pollFailed st =>
    if st.waiter ∧ st.taskHandle ∈ q.tasks.failureSet then some st.taskHandle else none
  | .h2d st => if st.waiter ∧ env.copyOk cfg = false then some st.taskHandle else none
  | .sync st => if env.syncOk cfg then none else some st.taskHandle
  | _ => none

/-- The copies that are not synchronised after this step of the transfer thread. -/
def Proc.copiesAfter (cfg : Config) (env : Env) (q : Proc) : List Copy :=
  match q.load.transfer with
  | .h2d st => q.load.copies ++
    Copy.issue cfg env st.taskHandle st.shard st.bufferHandle.pos q.load.streamIndex
  | .sync _ => Copy.unsynced env q.load.copies
  | _ => q.load.copies

/-- A load task only fails while nothing of it is under way: a submission to the backend fails only
when no earlier shard of the task is in flight and no copy of it is unsynchronised, and the last
shard fails only when no copy of the task is left unsynchronised. -/
def Proc.LoadFailsAlone (cfg : Config) (env : Env) (q : Proc) : Action → Prop
  | .loadDispatcher =>
    match q.load.dispatch with
    | .submit task _ _ _ => env.handle = none →
      (∀ st ∈ q.load.transfer.shards ++ q.load.running, st.taskHandle ≠ task.id) ∧
        ∀ c ∈ q.load.copies, c.task ≠ task.id
    | _ => True
  | .loadTransfer => ∀ id, q.failsLast cfg env = some id → ∀ c ∈ q.copiesAfter cfg env, c.task ≠ id
  | _ => True

instance (cfg : Config) (env : Env) (q : Proc) (act : Action) :
    Decidable (q.LoadFailsAlone cfg env act) := by
  unfold Proc.LoadFailsAlone
  split
  · split <;> infer_instance
  · exact decidable_of_iff
      (∀ id ∈ q.failsLast cfg env, ∀ c ∈ q.copiesAfter cfg env, c.task ≠ id) Iff.rfl
  · infer_instance

/-- The same of the process that takes the step. -/
def LoadFailsAlone {n : Nat} (cfg : Config) (s : State n) (e : Event n) : Prop :=
  (s.procs e.p).LoadFailsAlone cfg e.env e.act

instance {n : Nat} (cfg : Config) (s : State n) (e : Event n) : Decidable (LoadFailsAlone cfg s e) :=
  inferInstanceAs (Decidable ((s.procs e.p).LoadFailsAlone cfg e.env e.act))

end UnifiedCache.Cache
