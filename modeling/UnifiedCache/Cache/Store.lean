import UnifiedCache.Cache.TransBuffer
import Mathlib.Data.Finset.Basic
import Mathlib.Data.Multiset.Basic

/-!
# The cache store

Any number of processes share one `TransBuffer`; each runs a `LoadQueue` (a dispatcher and a
transfer thread), a `DumpQueue` (a dispatcher and a dumper thread) and the `TaskWrapper` that hands
out and waits for tasks. A thread's program counter says which shared operation it does next, and
every step below does one of them, in the order of the source.

What the environment answers is in the event: the outcome of a submission to the backend and the
handle it returns, the streams that fail, when a backend task finishes, when a wait times out.
-/

namespace UnifiedCache.Cache

/-- `Detail::Shard`. -/
structure Shard where
  owner : BlockId
  index : Nat
  addrs : List Nat
deriving DecidableEq, Repr

/-- The key of a shard in the buffer and in the backend. -/
def Shard.key (s : Shard) : BlockId × Nat := (s.owner, s.index)

/-- `TransTask::Type`. -/
inductive TaskType where
  | load
  | dump
deriving DecidableEq, Repr

/-- `TransTask` with the parts of its descriptor that are read. -/
structure TransTask where
  id : Nat
  type : TaskType
  desc : List Shard
  /-- The event a dump waits for, 0 for none. -/
  prerequisiteHandle : Nat
deriving DecidableEq, Repr

/-- The configuration of the store. -/
structure Config where
  buffer : BufferConfig
  /-- `tensorSizes_.size()`. -/
  nTensor : Nat
  streamNumber : Nat
  waitingQueueDepth : Nat
  runningQueueDepth : Nat
  /-- 0 waits without a timeout. -/
  timeoutMs : Nat
  /-- `CheckConfig` refuses a store without streams. -/
  stream_pos : 0 < streamNumber

/-- A store with one tensor per shard and one stream over a small buffer. -/
def Config.small : Config where
  buffer := .small
  nTensor := 1
  streamNumber := 1
  waitingQueueDepth := 8192
  runningQueueDepth := 524288
  timeoutMs := 30000
  stream_pos := by decide

/-! ## The backend -/

/-- A task this process submitted to its backend. -/
structure BackendTask where
  handle : Nat
  type : TaskType
  /-- Key and node of every shard. -/
  shards : List ((BlockId × Nat) × Nat)
  /-- The outcome, once the backend is done with the task. -/
  result : Option Bool
  /-- `backend_->Wait` has returned. -/
  waited : Bool
deriving DecidableEq, Repr

/-- The environment's answers to the step of a thread. -/
structure Env where
  /-- `BucketTryLock`, in `Get`. -/
  tryLocks : List Bool := []
  /-- The handle `backend_->Load` or `backend_->Dump` returns, `none` for a failure. -/
  handle : Option Nat := none
  /-- An asynchronous copy fails after that many tensors. -/
  copyFails : Option Nat := none
  /-- The streams whose `Synchronized` fails. -/
  failedStreams : List Nat := []
  /-- `WaitEvent` succeeds. -/
  eventOk : Bool := true

/-- An issued copy of the transfer or the dump thread that is not yet synchronised: the task it is
for, the device address and the node it touches, and its stream. -/
structure Copy where
  task : Nat
  addr : Nat
  node : Nat
  stream : Nat
deriving DecidableEq, Repr

/-! ## Tasks and their waiters -/

/-- Where `TaskWrapper::Wait(id)` is. -/
inductive WaitState where
  /-- No task has this id yet. -/
  | unknown
  /-- In `tasks_`. -/
  | registered
  /-- In `WaitFor`. -/
  | waiting
  /-- Timed out, waiting for the task to drain. -/
  | draining
  /-- `Wait` has returned, `none` for a timeout, otherwise whether the task succeeded. -/
  | returned (status : Option Bool)
deriving DecidableEq, Repr

/-- `TaskWrapper`: the waiters, the failure set and the tasks submitted so far. -/
structure Tasks where
  nextId : Nat
  submitted : List TransTask
  /-- The counter of each task's `Latch`. -/
  latch : Nat → Nat
  failureSet : Finset Nat
  wait : Nat → WaitState

/-- `Latch::Done`: the counter never goes below zero. -/
def Tasks.done (t : Tasks) (id : Nat) : Tasks :=
  { t with latch := Function.update t.latch id (t.latch id - 1) }

/-- `failureSet_->Insert`. -/
def Tasks.fail (t : Tasks) (id : Nat) : Tasks :=
  { t with failureSet := insert id t.failureSet }

/-! ## The load queue -/

/-- `LoadQueue::ShardTask`; only the last shard of a task carries the waiter. -/
structure ShardTask where
  taskHandle : Nat
  shard : Shard
  bufferHandle : Handle
  /-- 0 when nothing was submitted to the backend. -/
  backendTaskHandle : Nat
  waiter : Bool
deriving DecidableEq, Repr

/-- Where the dispatcher is in `LoadQueue::DispatchOneTask`; `rest` are the shards still to do. -/
inductive DispatchPc where
  | idle
  /-- Before `failureSet_->Contains`. -/
  | check (task : TransTask)
  /-- The task has failed already: before `waiter->Done()`. -/
  | skip (task : TransTask)
  /-- At the head of the loop: before `buffer_->Get`. -/
  | get (task : TransTask) (rest : List Shard)
  /-- Before `Ready()`. -/
  | ready (task : TransTask) (shard : Shard) (rest : List Shard) (h : Handle)
  /-- Before `backend_->Load`. -/
  | submit (task : TransTask) (shard : Shard) (rest : List Shard) (h : Handle)
  /-- The submission failed: before `failureSet_->Insert`. -/
  | failInsert (task : TransTask) (h : Handle)
  /-- Before `waiter->Done()`. -/
  | failDone (task : TransTask) (h : Handle)
  /-- Before the handle is destroyed. -/
  | failDrop (h : Handle)
  /-- Before `running_.Push`. -/
  | push (task : TransTask) (st : ShardTask) (rest : List Shard)
deriving DecidableEq, Repr

/-- Where the transfer thread is in `LoadQueue::TransferOneTask`. -/
inductive TransferPc where
  | idle
  /-- Before `failureSet_->Contains`. -/
  | check (st : ShardTask)
  /-- In `backend_->Wait`. -/
  | waitBackend (st : ShardTask)
  /-- Before `MarkReady()`. -/
  | markReady (st : ShardTask)
  /-- In the loop of `WaitBackendTaskReady`, before `Ready()`. -/
  | poll (st : ShardTask)
  /-- In that loop, before `failureSet_->Contains`. -/
  | pollFailed (st : ShardTask)
  /-- Before `HostToDeviceScatterAsync`. -/
  | h2d (st : ShardTask)
  /-- Before `stream.Synchronize()`. -/
  | sync (st : ShardTask)
  /-- In `holder_.clear()`; `ok` is the status of the synchronisation. -/
  | clear (st : ShardTask) (ok : Bool)
  /-- Before `failureSet_->Insert`. -/
  | fail (st : ShardTask)
  /-- Before `waiter->Done()`, if there is a waiter. -/
  | done (st : ShardTask)
  /-- Before the shard task is destroyed. -/
  | drop (st : ShardTask)
deriving DecidableEq, Repr

structure LoadQueue where
  waiting : List TransTask
  dispatch : DispatchPc
  running : List ShardTask
  transfer : TransferPc
  holder : List ShardTask
  /-- The next stream of the transfer thread's `CopyStream`. -/
  streamIndex : Nat
  /-- The host-to-device copies that are not synchronised. -/
  copies : List Copy

/-! ## The dump queue -/

/-- `DumpQueue::DumpCtx`. -/
structure DumpCtx where
  taskHandle : Nat
  backendTaskHandle : Nat
  bufferHandles : List Handle
deriving DecidableEq, Repr

/-- Where the dispatcher is in `DumpQueue::DispatchOneTask`; `acc` are the shards and handles
collected in `backendTaskDesc` and `dumpCtx`. -/
inductive DumpPc where
  | idle
  /-- Before `failureSet_->Contains`. -/
  | check (task : TransTask)
  /-- Before `stream.WaitEvent`. -/
  | waitEvent (task : TransTask)
  /-- At the head of the loop: before `buffer_->Get`. -/
  | get (task : TransTask) (rest : List Shard) (acc : List (Shard × Handle))
  /-- Not the owner: before the handle is destroyed. -/
  | skip (task : TransTask) (rest : List Shard) (acc : List (Shard × Handle)) (h : Handle)
  /-- Before `Ready()`. -/
  | ready (task : TransTask) (shard : Shard) (rest : List Shard) (acc : List (Shard × Handle))
      (h : Handle)
  /-- Before `DeviceToHostGatherAsync`. -/
  | d2h (task : TransTask) (shard : Shard) (rest : List Shard) (acc : List (Shard × Handle))
      (h : Handle)
  /-- Before `stream.Synchronize()`. -/
  | sync (task : TransTask) (acc : List (Shard × Handle))
  /-- In the `MarkReady` loop, before the first of `todo`. -/
  | markReady (task : TransTask) (acc : List (Shard × Handle)) (todo : List (Shard × Handle))
  /-- Before `backend_->Dump`. -/
  | submit (task : TransTask) (acc : List (Shard × Handle))
  /-- Before `dumping_.Push`. -/
  | push (task : TransTask) (acc : List (Shard × Handle)) (backendTaskHandle : Nat)
  /-- An early return: destroying the handles. -/
  | unwind (task : TransTask) (handles : List Handle)
  /-- Before `failureSet_->Insert`. -/
  | insert (task : TransTask)
  /-- Before `waiter->Done()`. -/
  | done (task : TransTask)
deriving DecidableEq, Repr

/-- Where the dumper is in `DumpQueue::BackendDumpStage`. -/
inductive DumperPc where
  | idle
  /-- In `backend_->Wait`. -/
  | wait (ctx : DumpCtx)
  /-- Destroying the handles of the context. -/
  | drop (handles : List Handle)
deriving DecidableEq, Repr

structure DumpQueue where
  waiting : List TransTask
  dispatch : DumpPc
  dumping : List DumpCtx
  dumper : DumperPc
  finishedBackendTaskHandle : Nat
  streamIndex : Nat
  /-- The device-to-host copies that are not synchronised. -/
  copies : List Copy

/-! ## Processes -/

/-- One process. -/
structure Proc where
  tasks : Tasks
  load : LoadQueue
  dump : DumpQueue
  backend : List BackendTask

/-- A process in which nothing has been submitted. -/
def Proc.init : Proc where
  tasks := { nextId := 1, submitted := [], latch := fun _ => 0, failureSet := ∅,
             wait := fun _ => .unknown }
  load := { waiting := [], dispatch := .idle, running := [], transfer := .idle, holder := [],
            streamIndex := 0, copies := [] }
  dump := { waiting := [], dispatch := .idle, dumping := [], dumper := .idle,
            finishedBackendTaskHandle := 0, streamIndex := 0, copies := [] }
  backend := []

/-- `TaskWrapper::Submit` with `LoadQueue::Submit` or `DumpQueue::Submit`: when the waiting queue is
full the task fails at once. -/
def Proc.submit (cfg : Config) (type : TaskType) (desc : List Shard) (prerequisiteHandle : Nat)
    (q : Proc) : Proc :=
  let id := q.tasks.nextId
  let task : TransTask := ⟨id, type, desc, prerequisiteHandle⟩
  let tasks := { q.tasks with
    nextId := id + 1
    submitted := q.tasks.submitted ++ [task]
    latch := Function.update q.tasks.latch id 1
    wait := Function.update q.tasks.wait id .registered }
  match type with
  | .load =>
    if q.load.waiting.length + 1 < cfg.waitingQueueDepth then
      { q with tasks := tasks, load := { q.load with waiting := q.load.waiting ++ [task] } }
    else
      { q with tasks := (tasks.fail id).done id }
  | .dump =>
    if q.dump.waiting.length + 1 < cfg.waitingQueueDepth then
      { q with tasks := tasks, dump := { q.dump with waiting := q.dump.waiting ++ [task] } }
    else
      { q with tasks := (tasks.fail id).done id }

/-- `TaskWrapper::Wait` up to `WaitFor`. -/
def Tasks.waitBegin (t : Tasks) (id : Nat) : Option Tasks :=
  if t.wait id = .registered then
    some { t with wait := Function.update t.wait id .waiting }
  else
    none

/-- `WaitFor` has timed out: the id enters the failure set. -/
def Tasks.waitTimeout (cfg : Config) (t : Tasks) (id : Nat) : Option Tasks :=
  if t.wait id = .waiting ∧ 0 < cfg.timeoutMs ∧ t.latch id ≠ 0 then
    some { t.fail id with wait := Function.update t.wait id .draining }
  else
    none

/-- `Wait` returns: the counter is zero, and the id leaves the failure set. -/
def Tasks.waitReturn (t : Tasks) (id : Nat) : Option Tasks :=
  if t.latch id = 0 then
    match t.wait id with
    | .waiting => some { t with
        failureSet := t.failureSet.erase id
        wait := Function.update t.wait id (.returned (some (id ∉ t.failureSet))) }
    | .draining => some { t with
        failureSet := t.failureSet.erase id
        wait := Function.update t.wait id (.returned none) }
    | _ => none
  else
    none

/-- A submission to the backend: a failure, or a new task under a handle not used before. -/
def Proc.submitBackend (q : Proc) (env : Env) (type : TaskType)
    (shards : List ((BlockId × Nat) × Nat)) : Option (Option Nat × Proc) :=
  match env.handle with
  | none => some (none, q)
  | some h =>
    if h = 0 ∨ h ∈ q.backend.map BackendTask.handle then
      none
    else
      some (some h, { q with backend := q.backend ++ [⟨h, type, shards, none, false⟩] })

/-- `backend_->Wait`: blocks until the task is over. -/
def Proc.waitBackend (q : Proc) (handle : Nat) : Option (Bool × Proc) :=
  match q.backend.find? (·.handle = handle) with
  | none => some (false, q)
  | some b =>
    match b.result with
    | none => none
    | some r => some (r && !b.waited, { q with
        backend := q.backend.map fun b =>
          if b.handle = handle then { b with waited := true } else b })

/-- The streams that failed keep their copies. -/
def Copy.unsynced (env : Env) (copies : List Copy) : List Copy :=
  copies.filter fun c => c.stream ∈ env.failedStreams

/-- `CopyStream::Synchronize` succeeds. -/
def Env.syncOk (cfg : Config) (env : Env) : Bool :=
  (List.range cfg.streamNumber).all fun i => i ∉ env.failedStreams

/-- The copies a scatter or gather of one shard issues on the next stream. -/
def Copy.issue (cfg : Config) (env : Env) (task : Nat) (shard : Shard) (node stream : Nat) :
    List Copy :=
  (shard.addrs.take (min cfg.nTensor (env.copyFails.getD cfg.nTensor))).map fun addr =>
    ⟨task, addr, node, stream⟩

/-- All copies of a scatter or gather were issued. -/
def Env.copyOk (cfg : Config) (env : Env) : Bool :=
  match env.copyFails with
  | none => true
  | some k => cfg.nTensor ≤ k

/-- One step of the load dispatcher. -/
def Proc.loadDispatcher (cfg : Config) (env : Env) (buf : TransBuffer) (q : Proc) :
    Option (TransBuffer × Proc) :=
  let goto (buf : TransBuffer) (q : Proc) (pc : DispatchPc) : Option (TransBuffer × Proc) :=
    some (buf, { q with load := { q.load with dispatch := pc } })
  match q.load.dispatch with
  | .idle =>
    match q.load.waiting with
    | [] => none
    | task :: waiting =>
      some (buf, { q with load := { q.load with waiting := waiting, dispatch := .check task } })
  | .check task =>
    if task.id ∈ q.tasks.failureSet then goto buf q (.skip task)
    else goto buf q (.get task task.desc)
  | .skip task => goto buf { q with tasks := q.tasks.done task.id } .idle
  | .get _ [] => goto buf q .idle
  | .get task (shard :: rest) =>
    match buf.get cfg.buffer shard.owner shard.index true env.tryLocks with
    | (none, buf) => some (buf, q)
    | (some h, buf) =>
      if h.owner then goto buf q (.ready task shard rest h)
      else goto buf q (.push task ⟨task.id, shard, h, 0, rest.isEmpty⟩ rest)
  | .ready task shard rest h =>
    if buf.ready h.pos then goto buf q (.push task ⟨task.id, shard, h, 0, rest.isEmpty⟩ rest)
    else goto buf q (.submit task shard rest h)
  | .submit task shard rest h =>
    match q.submitBackend env .load [(shard.key, h.pos)] with
    | none => none
    | some (none, q) => goto buf q (.failInsert task h)
    | some (some handle, q) =>
      goto buf q (.push task ⟨task.id, shard, h, handle, rest.isEmpty⟩ rest)
  | .failInsert task h => goto buf { q with tasks := q.tasks.fail task.id } (.failDone task h)
  | .failDone task h => goto buf { q with tasks := q.tasks.done task.id } (.failDrop h)
  | .failDrop h => goto (buf.release h.pos) q .idle
  | .push task st rest =>
    if q.load.running.length + 1 < cfg.runningQueueDepth then
      some (buf, { q with load := { q.load with
        running := q.load.running ++ [st], dispatch := .get task rest } })
    else
      none

/-- One step of the transfer thread. -/
def Proc.loadTransfer (cfg : Config) (env : Env) (buf : TransBuffer) (q : Proc) :
    Option (TransBuffer × Proc) :=
  let goto (buf : TransBuffer) (q : Proc) (pc : TransferPc) : Option (TransBuffer × Proc) :=
    some (buf, { q with load := { q.load with transfer := pc } })
  match q.load.transfer with
  | .idle =>
    match q.load.running with
    | [] => none
    | st :: running =>
      some (buf, { q with load := { q.load with running := running, transfer := .check st } })
  | .check st =>
    if st.taskHandle ∈ q.tasks.failureSet then goto buf q (.done st)
    else if st.backendTaskHandle ≠ 0 then goto buf q (.waitBackend st)
    else goto buf q (.poll st)
  | .waitBackend st =>
    match q.waitBackend st.backendTaskHandle with
    | none => none
    | some (false, q) => goto buf q (.fail st)
    | some (true, q) => goto buf q (.markReady st)
  | .markReady st => goto (buf.markReady st.bufferHandle.pos) q (.h2d st)
  | .poll st =>
    if buf.ready st.bufferHandle.pos then goto buf q (.h2d st) else goto buf q (.pollFailed st)
  | .pollFailed st =>
    if st.taskHandle ∈ q.tasks.failureSet then goto buf q (.fail st) else goto buf q (.poll st)
  | .h2d st =>
    let load := { q.load with
      streamIndex := (q.load.streamIndex + 1) % cfg.streamNumber
      copies := q.load.copies ++ Copy.issue cfg env st.taskHandle st.shard st.bufferHandle.pos
        q.load.streamIndex }
    if env.copyOk cfg then
      if st.waiter then
        some (buf, { q with load := { load with transfer := .sync st } })
      else
        some (buf, { q with load := { load with holder := load.holder ++ [st], transfer := .idle } })
    else
      some (buf, { q with load := { load with transfer := .fail st } })
  | .sync st =>
    some (buf, { q with load := { q.load with
      copies := Copy.unsynced env q.load.copies, transfer := .clear st (env.syncOk cfg) } })
  | .clear st ok =>
    match q.load.holder with
    | [] => goto buf q (if ok then .done st else .fail st)
    | held :: holder =>
      some (buf.release held.bufferHandle.pos, { q with load := { q.load with holder := holder } })
  | .fail st => goto buf { q with tasks := q.tasks.fail st.taskHandle } (.done st)
  | .done st =>
    goto buf (if st.waiter then { q with tasks := q.tasks.done st.taskHandle } else q) (.drop st)
  | .drop st => goto (buf.release st.bufferHandle.pos) q .idle

/-- One step of the dump dispatcher. -/
def Proc.dumpDispatcher (cfg : Config) (env : Env) (buf : TransBuffer) (q : Proc) :
    Option (TransBuffer × Proc) :=
  let goto (buf : TransBuffer) (q : Proc) (pc : DumpPc) : Option (TransBuffer × Proc) :=
    some (buf, { q with dump := { q.dump with dispatch := pc } })
  match q.dump.dispatch with
  | .idle =>
    match q.dump.waiting with
    | [] => none
    | task :: waiting =>
      some (buf, { q with dump := { q.dump with waiting := waiting, dispatch := .check task } })
  | .check task =>
    if task.id ∈ q.tasks.failureSet then goto buf q (.done task)
    else if task.prerequisiteHandle ≠ 0 then goto buf q (.waitEvent task)
    else goto buf q (.get task task.desc [])
  | .waitEvent task =>
    if env.eventOk then goto buf q (.get task task.desc []) else goto buf q (.insert task)
  | .get task [] acc => goto buf q (if acc.isEmpty then .done task else .sync task acc)
  | .get task (shard :: rest) acc =>
    match buf.get cfg.buffer shard.owner shard.index false env.tryLocks with
    | (none, buf) => some (buf, q)
    | (some h, buf) =>
      if h.owner then goto buf q (.ready task shard rest acc h)
      else goto buf q (.skip task rest acc h)
  | .skip task rest acc h => goto (buf.release h.pos) q (.get task rest acc)
  | .ready task shard rest acc h =>
    if buf.ready h.pos then goto buf q (.get task rest (acc ++ [(shard, h)]))
    else goto buf q (.d2h task shard rest acc h)
  | .d2h task shard rest acc h =>
    let dump := { q.dump with
      streamIndex := (q.dump.streamIndex + 1) % cfg.streamNumber
      copies := q.dump.copies ++ Copy.issue cfg env task.id shard h.pos q.dump.streamIndex }
    if env.copyOk cfg then
      some (buf, { q with dump := { dump with dispatch := .get task rest (acc ++ [(shard, h)]) } })
    else
      some (buf, { q with dump := { dump with dispatch := .unwind task (h :: acc.map (·.2)) } })
  | .sync task acc =>
    some (buf, { q with dump := { q.dump with
      copies := Copy.unsynced env q.dump.copies
      dispatch := if env.syncOk cfg then .markReady task acc acc
        else .unwind task (acc.map (·.2)) } })
  | .markReady task acc [] => goto buf q (.submit task acc)
  | .markReady task acc (x :: todo) => goto (buf.markReady x.2.pos) q (.markReady task acc todo)
  | .submit task acc =>
    match q.submitBackend env .dump (acc.map fun x => (x.1.key, x.2.pos)) with
    | none => none
    | some (none, q) => goto buf q (.unwind task (acc.map (·.2)))
    | some (some handle, q) => goto buf q (.push task acc handle)
  | .push task acc handle =>
    if q.dump.dumping.length + 1 < cfg.runningQueueDepth then
      some (buf, { q with dump := { q.dump with
        dumping := q.dump.dumping ++ [⟨task.id, handle, acc.map (·.2)⟩], dispatch := .done task } })
    else
      none
  | .unwind task [] => goto buf q (.insert task)
  | .unwind task (h :: handles) => goto (buf.release h.pos) q (.unwind task handles)
  | .insert task => goto buf { q with tasks := q.tasks.fail task.id } (.done task)
  | .done task => goto buf { q with tasks := q.tasks.done task.id } .idle

/-- One step of the dumper. -/
def Proc.dumper (buf : TransBuffer) (q : Proc) : Option (TransBuffer × Proc) :=
  match q.dump.dumper with
  | .idle =>
    match q.dump.dumping with
    | [] => none
    | ctx :: dumping =>
      some (buf, { q with dump := { q.dump with
        dumping := dumping
        dumper := if q.dump.finishedBackendTaskHandle < ctx.backendTaskHandle then .wait ctx
          else .drop ctx.bufferHandles } })
  | .wait ctx =>
    match q.waitBackend ctx.backendTaskHandle with
    | none => none
    | some (_, q) =>
      some (buf, { q with dump := { q.dump with
        finishedBackendTaskHandle := ctx.backendTaskHandle, dumper := .drop ctx.bufferHandles } })
  | .drop [] => some (buf, { q with dump := { q.dump with dumper := .idle } })
  | .drop (h :: handles) =>
    some (buf.release h.pos, { q with dump := { q.dump with dumper := .drop handles } })

/-! ## The whole store -/

/-- The processes that share a buffer, and what the storage behind their backends holds. -/
structure State (n : Nat) where
  buf : TransBuffer
  stored : Finset (BlockId × Nat)
  procs : Fin n → Proc

/-- What a process does in a step. -/
inductive Action where
  /-- A client submits a task. -/
  | submit (type : TaskType) (desc : List Shard) (prerequisiteHandle : Nat)
  /-- A client calls `Wait`. -/
  | waitBegin (id : Nat)
  | waitTimeout (id : Nat)
  | waitReturn (id : Nat)
  /-- The next step of a thread. -/
  | loadDispatcher
  | loadTransfer
  | dumpDispatcher
  | dumper
  /-- The backend is done with a task. -/
  | backendFinish (handle : Nat) (ok : Bool)
deriving DecidableEq, Repr

/-- A step of process `p`. -/
structure Event (n : Nat) where
  p : Fin n
  act : Action
  env : Env := {}

/-- The backend finishes a task: a load succeeds only for shards that are stored, and a dump that
succeeds stores its shards. -/
def Proc.backendFinish (q : Proc) (stored : Finset (BlockId × Nat)) (handle : Nat) (ok : Bool) :
    Option (Finset (BlockId × Nat) × Proc) :=
  match q.backend.find? (·.handle = handle) with
  | none => none
  | some b =>
    if b.result ≠ none ∨ ok = true ∧ b.type = .load ∧ ∃ x ∈ b.shards, x.1 ∉ stored then
      none
    else
      let stored := if ok = true ∧ b.type = .dump then
        stored ∪ (b.shards.map (·.1)).toFinset else stored
      some (stored, { q with
        backend := q.backend.map fun b =>
          if b.handle = handle then { b with result := some ok } else b })

/-- The state after process `p` has changed the buffer and itself. -/
def State.set {n : Nat} (s : State n) (p : Fin n) (r : TransBuffer × Proc) : State n :=
  { s with buf := r.1, procs := Function.update s.procs p r.2 }

/-- The effect of an event. -/
def State.step {n : Nat} (cfg : Config) (s : State n) (e : Event n) : Option (State n) :=
  let q := s.procs e.p
  match e.act with
  | .submit type desc prerequisiteHandle =>
    some (s.set e.p (s.buf, q.submit cfg type desc prerequisiteHandle))
  | .waitBegin id => (q.tasks.waitBegin id).map fun t => s.set e.p (s.buf, { q with tasks := t })
  | .waitTimeout id =>
    (q.tasks.waitTimeout cfg id).map fun t => s.set e.p (s.buf, { q with tasks := t })
  | .waitReturn id => (q.tasks.waitReturn id).map fun t => s.set e.p (s.buf, { q with tasks := t })
  | .loadDispatcher => (q.loadDispatcher cfg e.env s.buf).map (s.set e.p)
  | .loadTransfer => (q.loadTransfer cfg e.env s.buf).map (s.set e.p)
  | .dumpDispatcher => (q.dumpDispatcher cfg e.env s.buf).map (s.set e.p)
  | .dumper => (q.dumper s.buf).map (s.set e.p)
  | .backendFinish handle ok => (q.backendFinish s.stored handle ok).map fun r =>
    { s.set e.p (s.buf, r.2) with stored := r.1 }

/-- Nothing has been submitted, and the storage holds `stored`. -/
def State.start (n : Nat) (stored : Finset (BlockId × Nat)) : State n where
  buf := .setup
  stored := stored
  procs := fun _ => .init

/-- All runs of `n` processes on a freshly set up buffer over a backend with any contents. -/
def storeMachine (cfg : Config) (n : Nat) : Lib.Machine (State n) (Event n) where
  init s := s.buf = .setup ∧ ∀ p, s.procs p = .init
  step := State.step cfg

end UnifiedCache.Cache
