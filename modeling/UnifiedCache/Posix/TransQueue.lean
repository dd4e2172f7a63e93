import UnifiedCache.Infra.ThreadPool
import UnifiedCache.Lib.Ledger
import UnifiedCache.Lib.Machine
import Mathlib.Data.Finset.Basic

/-!
# The psync engine

`IoEnginePsync` of the posix store: a `TaskWrapper` whose tasks are cut into `IoUnit`s by
`TransQueue::Push`, one for each shard, and executed by two thread pools, one for loads and one for
dumps. The latch of a task is set to the number of its units; a unit is finished from the worker
function, from the timeout function the monitor of the pool calls, and from the visitor of `Cancel`.

Callers are any number of threads that submit tasks and wait for them. The outcome of the file
operations of a unit, the passing of time and the start of threads are the environment's.
-/

open Lib UnifiedCache.Infra

namespace UnifiedCache.Posix

/-- `Detail::BlockId`. -/
abbrev BlockId := Nat

/-- `Detail::Shard`. -/
structure Shard where
  owner : BlockId
  index : Nat
  addrs : List Nat
deriving DecidableEq, Repr

/-- `TransTask::Type`. -/
inductive TaskType where
  | load
  | dump
deriving DecidableEq, Repr

/-- `TransTask`. -/
structure TransTask where
  id : Nat
  type : TaskType
  desc : List Shard
deriving DecidableEq, Repr

/-- `TransQueue::IoUnit`: the latch is that of the owner. `place` tells the units of a task apart. -/
structure IoUnit where
  owner : Nat
  shard : Shard
  place : Nat
deriving DecidableEq, Repr

/-- The units `TransQueue::Push` makes of a task. -/
def TransTask.units (t : TransTask) : List IoUnit :=
  t.desc.zipIdx.map fun (shard, place) => ⟨t.id, shard, place⟩

/-- What the engine reads of the configuration. -/
structure Config where
  dataTransConcurrency : Nat
  /-- Without a timeout there is no monitor, and waiting has no limit. -/
  timeoutMs : Nat
  /-- `Run` refuses a pool without workers. -/
  worker_pos : 0 < dataTransConcurrency

/-- Two workers and a timeout. -/
def Config.small : Config := ⟨2, 30000, Nat.two_pos⟩

/-! ## Threads -/

/-- Where a worker stands in `LoadWorker` or `DumpWorker`. -/
inductive BodyPc where
  | check
  /-- `S2H`, or `H2S` and the commit of the last shard. -/
  | io
  | insert
  | done
deriving DecidableEq, Repr

/-- Where a thread stands in `OnIoUnitTimeout`. -/
inductive TimeoutPc where
  | insert
  | done
deriving DecidableEq, Repr

/-- What `TaskWrapper::Wait` returns for a task it knows. -/
inductive WaitStatus where
  | ok
  | error
  | timeout
deriving DecidableEq, Repr

/-- Where a caller stands. -/
inductive ClientPc where
  | idle
  /-- In `Submit`: the latch is set and the units are not yet pushed. -/
  | push (type : TaskType) (units : List IoUnit)
  | waitFor (task : TransTask)
  | contains (task : TransTask)
  | insert (task : TransTask)
  /-- In `TransQueue::Cancel`; the last component is the place in the visitor. -/
  | cancel (task : TransTask) (t : Traverse IoUnit) (visitor : TimeoutPc)
  | drain (task : TransTask)
  | remove (task : TransTask) (status : WaitStatus)

/-- The pools of the engine. -/
abbrev Pool := ThreadPool IoUnit BodyPc TimeoutPc

/-- The engine and its callers. -/
structure State where
  nextId : Nat
  /-- The counter of each task's latch. -/
  latch : Nat → Nat
  failureSet : Finset Nat
  /-- `tasks_`. -/
  tasks : List TransTask
  pools : TaskType → Pool
  clients : List ClientPc
  /-- Record: the tasks submitted. -/
  submitted : List TransTask
  /-- Record: the units `Latch::Done` was called for. -/
  dones : List IoUnit
  /-- Record: the tasks `Wait` has returned for. -/
  returned : List (Nat × WaitStatus)

namespace State

/-- The engine after `Setup`, with callers that have done nothing yet. -/
def start (cfg : Config) (nClient : Nat) : State where
  nextId := 1
  latch := fun _ => 0
  failureSet := ∅
  tasks := []
  pools := fun _ => .start cfg.dataTransConcurrency
  clients := List.replicate nClient .idle
  submitted := []
  dones := []
  returned := []

/-- `ios.waiter->Done()`: the counter never goes below zero. -/
def done (s : State) (u : IoUnit) : State :=
  { s with latch := Function.update s.latch u.owner (s.latch u.owner - 1), dones := u :: s.dones }

/-- `failureSet_->Insert`. -/
def fail (s : State) (id : Nat) : State := { s with failureSet := insert id s.failureSet }

/-- Replaces one pool. -/
def setPool (s : State) (type : TaskType) (b : Pool) : State :=
  { s with pools := Function.update s.pools type b }

/-- Replaces one worker of a pool. -/
def setWorker (s : State) (type : TaskType) (i : Nat) (w : Worker IoUnit BodyPc) : State :=
  s.setPool type ((s.pools type).setWorker i w)

/-- Moves a caller on. -/
def setClient (s : State) (c : Nat) (pc : ClientPc) : State :=
  { s with clients := s.clients.set c pc }

/-- `Wait` returns. -/
def finishWait (s : State) (c id : Nat) (status : WaitStatus) : State :=
  { s.setClient c .idle with returned := (id, status) :: s.returned }

end State

/-! ## Steps -/

/-- What the environment says to a caller: the wait is over, and `IsTimeout` of the latches as the
early stopper and the filter see it. -/
structure ClientEnv where
  timedOut : Bool := false
  earlyTimeout : IoUnit → Bool := fun _ => false
  filterTimeout : IoUnit → Bool := fun _ => false

/-- The events. -/
inductive Event where
  /-- A caller enters `Submit`. -/
  | submit (c : Nat) (type : TaskType) (desc : List Shard)
  /-- A caller enters `Wait`. -/
  | wait (c : Nat) (handle : Nat)
  /-- The next step of a caller. -/
  | client (c : Nat) (env : ClientEnv)
  /-- The next step of a worker, and whether its file operations succeed. -/
  | worker (type : TaskType) (i : Nat) (ok : Bool)
  /-- The next step of the monitor of a pool. -/
  | monitor (type : TaskType) (overdue added : Bool)

/-- `TransTask`'s constructor, `TaskWrapper::Submit` up to `Dispatch`, and `Push` up to the pool's
own. Nobody else knows the task before `Submit` returns its handle. `ios.front()` needs a shard. -/
def submit (c : Nat) (type : TaskType) (desc : List Shard) (s : State) : Option State :=
  match s.clients[c]? with
  | some .idle =>
    if desc = [] then none
    else
      let task : TransTask := ⟨s.nextId, type, desc⟩
      some { s.setClient c (.push type task.units) with
        nextId := s.nextId + 1
        latch := Function.update s.latch task.id desc.length
        tasks := task :: s.tasks
        submitted := s.submitted ++ [task] }
  | _ => none

/-- `TaskWrapper::Wait` up to `WaitFor`. -/
def wait (c handle : Nat) (s : State) : Option State :=
  match s.clients[c]?, s.tasks.find? fun t => t.id = handle with
  | some .idle, some task =>
    some { s.setClient c (.waitFor task) with tasks := s.tasks.erase task }
  | some .idle, none => some s
  | _, _ => none

/-- The early stopper of `Cancel`. -/
def earlyStopper (env : ClientEnv) (tid : Nat) (ios : IoUnit) : Bool :=
  ios.owner > tid && !env.earlyTimeout ios

/-- The filter of `Cancel`. -/
def cancelFilter (env : ClientEnv) (tid : Nat) (ios : IoUnit) : Bool :=
  ios.owner == tid || env.filterTimeout ios

/-- `TransQueue::Cancel`: one step of the traversal, or of the visitor when it is at a unit. -/
def cancelStep (cfg : Config) (env : ClientEnv) (c : Nat) (task : TransTask) (t : Traverse IoUnit)
    (visitor : TimeoutPc) (s : State) : Option State :=
  match t, visitor with
  | .visit kept ios rest processed, .insert =>
    some ((s.fail ios.owner).setClient c (.cancel task (.visit kept ios rest processed) .done))
  | .visit kept ios rest processed, .done =>
    some ((s.done ios).setClient c (.cancel task (Traverse.visited kept rest processed) .insert))
  | t, _ =>
    (t.step cfg.dataTransConcurrency (earlyStopper env task.id) (cancelFilter env task.id)
      (s.pools task.type).queue).map fun (o, q) =>
        let s' := s.setPool task.type ((s.pools task.type).setQueue q)
        match o with
        | some t' => s'.setClient c (.cancel task t' .insert)
        | none => s'.setClient c (.drain task)

/-- The next step of a caller in `Submit` or `Wait`. -/
def clientStep (cfg : Config) (env : ClientEnv) (c : Nat) (s : State) : Option State :=
  match s.clients[c]? with
  | none | some .idle => none
  | some (.push type units) =>
    let b := s.pools type
    some ((s.setPool type (b.setQueue (b.queue.push units))).setClient c .idle)
  | some (.waitFor task) =>
    if s.latch task.id = 0 then some (s.setClient c (.contains task))
    else if cfg.timeoutMs ≠ 0 ∧ env.timedOut then some (s.setClient c (.insert task))
    else none
  | some (.contains task) =>
    if task.id ∈ s.failureSet then some (s.setClient c (.remove task .error))
    else some (s.finishWait c task.id .ok)
  | some (.insert task) => some ((s.fail task.id).setClient c (.cancel task .swap .insert))
  | some (.cancel task t visitor) => cancelStep cfg env c task t visitor s
  | some (.drain task) =>
    if s.latch task.id = 0 then some (s.setClient c (.remove task .timeout)) else none
  | some (.remove task status) =>
    some ({ s with failureSet := s.failureSet.erase task.id }.finishWait c task.id status)

/-- `LoadWorker` and `DumpWorker`: one step of the function worker `w` runs on unit `ios`. -/
def bodyStep (type : TaskType) (i : Nat) (ok : Bool) (w : Worker IoUnit BodyPc) (ios : IoUnit)
    (s : State) : BodyPc → State
  | .check =>
    if ios.owner ∈ s.failureSet then s.setWorker type i { w with pc := .run ios .done }
    else s.setWorker type i { w with pc := .run ios .io }
  | .io =>
    if ok then s.setWorker type i { w with pc := .run ios .done }
    else s.setWorker type i { w with pc := .run ios .insert }
  | .insert => (s.fail ios.owner).setWorker type i { w with pc := .run ios .done }
  | .done => (s.done ios).setWorker type i { w with pc := .ret ios }

/-- The next step of a worker. -/
def workerStep (type : TaskType) (i : Nat) (ok : Bool) (s : State) : Option State :=
  match (s.pools type).threads[i]? with
  | none => none
  | some w =>
    match w.pc with
    | .run ios p => some (bodyStep type i ok w ios s p)
    | _ => ((s.pools type).workerStep .check i).map (s.setPool type)

/-- The next step of the monitor of a pool, with `OnIoUnitTimeout` as its timeout function. -/
def monitorStep (cfg : Config) (type : TaskType) (overdue added : Bool) (s : State) :
    Option State :=
  if cfg.timeoutMs = 0 then none
  else
    let b := s.pools type
    match b.monitor with
    | .timeout it ios .insert =>
      some ((s.fail ios.owner).setPool type { b with monitor := .timeout it ios .done })
    | .timeout it ios .done => some ((s.done ios).setPool type { b with monitor := .stop it })
    | _ => (b.monitorStep cfg.dataTransConcurrency .insert overdue added).map (s.setPool type)

/-- One event. -/
def step (cfg : Config) (s : State) : Event → Option State
  | .submit c type desc => submit c type desc s
  | .wait c handle => wait c handle s
  | .client c env => clientStep cfg env c s
  | .worker type i ok => workerStep type i ok s
  | .monitor type overdue added => monitorStep cfg type overdue added s

/-- The engine with any number of callers. -/
def machine (cfg : Config) : Machine State Event where
  init s := ∃ nClient, s = State.start cfg nClient
  step := step cfg

/-! ## What is under way -/

/-- The units a caller has in hand. -/
def ClientPc.held : ClientPc → List IoUnit
  | .push _ units => units
  | .cancel _ t _ => t.held
  | .idle | .waitFor _ | .contains _ | .insert _ | .drain _ | .remove _ _ => []

/-- The units that have neither finished executing nor been removed from a queue unexecuted: those a
caller is about to push or has taken into the snapshot of `Cancel`, those in a queue, and those a
worker has taken and whose worker function has not returned. -/
def State.held (s : State) : List IoUnit :=
  s.clients.flatMap ClientPc.held ++ ((s.pools .load).held ++ (s.pools .dump).held)

/-- The units of all tasks submitted. -/
def State.issued (s : State) : List IoUnit := s.submitted.flatMap TransTask.units

/-- The engine as a ledger: the units under the counters of the latches. -/
def State.ledger (s : State) : Ledger IoUnit Nat := ⟨s.issued, s.held, s.dones, s.latch⟩

/-- `ThreadPool::Monitor` does not give up on a worker in this step. -/
def NoTimeout (s : State) : Event → Prop
  | .monitor type overdue _ => (s.pools type).timesOut overdue = false
  | _ => True

instance (s : State) (e : Event) : Decidable (NoTimeout s e) := by
  unfold NoTimeout
  split <;> infer_instance

end UnifiedCache.Posix
