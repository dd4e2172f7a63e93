import UnifiedCache.Infra.ThreadPool
import UnifiedCache.Lib.Ledger
import UnifiedCache.Lib.Machine
import Mathlib.Data.Finset.Basic

/-!
# The transfers of the pc store

`TransManager` and `TransQueue` of the pc store. The shards of a task are grouped by block, and the
latch of the task is set to the number of groups. A load goes through two thread pools, for every
block on its own: the file pool reads the file and the device pool copies it to the device. A dump is
copied from the device by the thread that submits it, which then hands the blocks to the file pool.

Callers are any number of threads that submit tasks and wait for them. The outcomes of the device
copies, of their synchronisation and of the file operations are the environment's, as are the passing
of time and the start of threads. A copy is in flight from the call that issues it until a
synchronisation of the same caller has returned.
-/

open Lib UnifiedCache.Infra

namespace UnifiedCache.PcStore

/-- The id of a block, from which its file is named. -/
abbrev BlockId := Nat

/-- `TransTask::Type`. -/
inductive TaskType where
  | dump
  | load
deriving DecidableEq, Repr

/-- The device addresses of one block. -/
structure Group where
  block : BlockId
  shards : List Nat
deriving DecidableEq, Repr

/-- `grouped_`: a block has one group. -/
structure Grouped where
  groups : List Group
  nodup : (groups.map Group.block).Nodup
deriving DecidableEq

/-- `TransTask`. -/
structure TransTask where
  id : Nat
  type : TaskType
  grouped : Grouped
deriving DecidableEq

/-- `TransTask::GroupNumber`. -/
def TransTask.groupNumber (t : TransTask) : Nat := t.grouped.groups.length

/-- A block of a task. -/
abbrev Item := Nat × BlockId

/-- The blocks of a task. -/
def TransTask.items (t : TransTask) : List Item := t.grouped.groups.map fun g => (t.id, g.block)

/-- `TransQueue::BlockTask`; `done` says whether the function is set. -/
structure BlockTask where
  owner : Nat
  block : BlockId
  type : TaskType
  shards : List Nat
  done : Bool
deriving DecidableEq, Repr

/-- The block of the task. -/
def BlockTask.item (t : BlockTask) : Item := (t.owner, t.block)

/-- What `Dispatch` makes of a group. -/
def TransTask.blockTask (t : TransTask) (g : Group) : BlockTask :=
  ⟨t.id, g.block, t.type, g.shards, true⟩

/-- What `DispatchDump` and `DispatchSatterGatherDump` make of a group. -/
def TransTask.dumpTask (t : TransTask) (g : Group) : BlockTask :=
  ⟨t.id, g.block, t.type, g.shards, false⟩

/-- What the queue reads of the configuration. -/
structure Config where
  ioSize : Nat
  streamNumber : Nat
  /-- Without a timeout there is no monitor, and waiting has no limit. -/
  timeoutMs : Nat
  scatterGatherEnable : Bool
  shardDataDir : Bool
  /-- `Run` refuses a pool without workers. -/
  worker_pos : 0 < streamNumber

/-- Two workers and a timeout. -/
def Config.small (scatterGatherEnable : Bool) : Config :=
  ⟨4, 2, 30000, scatterGatherEnable, false, Nat.two_pos⟩

/-! ## The device -/

/-- A copy in flight between the host and one address of the device. -/
structure Copy where
  owner : Nat
  block : BlockId
  shard : Nat
deriving DecidableEq, Repr

/-- The block of the copy. -/
def Copy.item (c : Copy) : Item := (c.owner, c.block)

/-- What the environment answers to the calls of one thread to a stream. -/
structure DeviceEnv where
  /-- `HostToDeviceAsync` of the addresses succeeds. -/
  uploadOk : Bool := true
  /-- The shard at which an asynchronous copy fails. -/
  copyFails : Option Nat := none
  syncOk : Bool := true
  /-- A synchronisation that fails leaves no copy of the caller in flight. -/
  settled : Bool := true
deriving DecidableEq, Repr

namespace DeviceEnv

variable (env : DeviceEnv)

/-- The shards whose copies are issued: up to the one that fails, or by one kernel for all. -/
def issued (sm : Bool) (shards : List Nat) : List Nat :=
  match env.copyFails with
  | none => shards
  | some k => if sm then [] else shards.take k

/-- The asynchronous calls for a block succeed. -/
def copyOk (sm : Bool) (shards : List Nat) : Bool :=
  match env.copyFails with
  | none => !sm || env.uploadOk
  | some k => !sm && decide (shards.length ≤ k)

/-- The copies of a block that are issued. -/
def copies (sm : Bool) (t : BlockTask) : List Copy :=
  (env.issued sm t.shards).map fun shard => ⟨t.owner, t.block, shard⟩

end DeviceEnv

/-! ## Threads -/

/-- Where a worker stands in `FileWorker`. -/
inductive FilePc where
  | contains
  /-- Before `File::Write` or `File::Read`. -/
  | io
  /-- In `Commit`, before `File::MkDir`. -/
  | mkdir
  | rename
  | remove
  | push
  | insert
  | done
deriving DecidableEq, Repr

/-- Where a worker stands in `DeviceWorker`. -/
inductive DevicePc where
  | contains
  /-- Before the asynchronous copies. -/
  | issue
  /-- Before `Synchronized`. -/
  | sync
  | push
  | insert
  | done
deriving DecidableEq, Repr

/-- Where the monitor stands in `FileWorkerTimeout`. -/
inductive TimeoutPc where
  | insert
  | done
deriving DecidableEq, Repr

/-- What `TransManager::Wait` returns for a task it knows. -/
inductive WaitStatus where
  | ok
  | error
  | timeout
deriving DecidableEq, Repr

/-- Where a caller stands. -/
inductive ClientPc where
  | idle
  /-- In the loop of `Dispatch`. -/
  | dispatch (task : TransTask) (rest : List Group)
  /-- In the first loop of `DispatchDump` or `DispatchSatterGatherDump`. -/
  | copy (task : TransTask) (rest : List Group) (blocks : List BlockTask)
  | sync (task : TransTask) (blocks : List BlockTask)
  /-- `Synchronized` has failed. -/
  | failInsert (task : TransTask) (blocks : List BlockTask)
  | failDone (blocks : List BlockTask)
  /-- In the second loop, after `Synchronized` has succeeded. -/
  | push (blocks : List BlockTask)
  | done (block : BlockTask) (blocks : List BlockTask)
  /-- In the first wait of `Wait`. -/
  | waitFor (task : TransTask)
  | contains (task : TransTask)
  | insert (task : TransTask)
  /-- In the second wait, which has no limit. -/
  | drain (task : TransTask)
  | remove (task : TransTask) (status : WaitStatus)
deriving DecidableEq

/-- `filePool_`. -/
abbrev FilePool := ThreadPool BlockTask FilePc TimeoutPc

/-- `devPool_`, which has no timeout. -/
abbrev DevPool := ThreadPool BlockTask DevicePc Empty

/-- The store and its callers. -/
structure State where
  nextId : Nat
  /-- The counter of each task's waiter. -/
  latch : Nat → Nat
  failureSet : Finset Nat
  /-- `tasks_`. -/
  tasks : List TransTask
  filePool : FilePool
  devPool : DevPool
  clients : List ClientPc
  /-- The copies in flight. -/
  copies : List Copy
  /-- Record: the tasks submitted. -/
  submitted : List TransTask
  /-- Record: the blocks the waiter's `Done` was called for. -/
  dones : List Item
  /-- Record: the blocks `FileWorkerTimeout` called it for. -/
  expired : List Item
  /-- Record: the tasks `Wait` has returned for. -/
  returned : List (Nat × WaitStatus)
  /-- Record: the blocks whose device-to-host copies were issued without an error. -/
  copied : List Item
  /-- Record: the tasks whose device-to-host copies were synchronised without an error. -/
  synced : List Nat
  /-- Record: the blocks written in their whole length. -/
  written : List Item
  /-- Record: the blocks whose archived file was created. -/
  archived : List Item

namespace State

/-- The store after `Setup`, with callers that have done nothing yet. -/
def start (cfg : Config) (nClient : Nat) : State where
  nextId := 1
  latch := fun _ => 0
  failureSet := ∅
  tasks := []
  filePool := .start cfg.streamNumber
  devPool := .start cfg.streamNumber
  clients := List.replicate nClient .idle
  copies := []
  submitted := []
  dones := []
  expired := []
  returned := []
  copied := []
  synced := []
  written := []
  archived := []

variable (s : State)

/-- `waiter->Done()`: the counter never goes below zero. -/
def done (t : BlockTask) : State :=
  { s with latch := Function.update s.latch t.owner (s.latch t.owner - 1), dones := t.item :: s.dones }

/-- `failureSet_->Insert`. -/
def fail (id : Nat) : State := { s with failureSet := insert id s.failureSet }

/-- `filePool_.Push`. -/
def pushFile (t : BlockTask) : State :=
  { s with filePool := s.filePool.setQueue (s.filePool.queue.push [t]) }

/-- `devPool_.Push`. -/
def pushDev (t : BlockTask) : State :=
  { s with devPool := s.devPool.setQueue (s.devPool.queue.push [t]) }

/-- Replaces one worker of the file pool. -/
def setFile (i : Nat) (w : Worker BlockTask FilePc) : State :=
  { s with filePool := s.filePool.setWorker i w }

/-- Replaces one worker of the device pool. -/
def setDev (i : Nat) (w : Worker BlockTask DevicePc) : State :=
  { s with devPool := s.devPool.setWorker i w }

/-- Moves a caller on. -/
def setClient (c : Nat) (pc : ClientPc) : State := { s with clients := s.clients.set c pc }

/-- `Wait` returns. -/
def finishWait (c id : Nat) (status : WaitStatus) : State :=
  { s.setClient c .idle with returned := (id, status) :: s.returned }

end State

/-! ## Steps -/

/-- What the environment says to a caller. -/
structure ClientEnv where
  timedOut : Bool := false
  device : DeviceEnv := { }
deriving DecidableEq, Repr

/-- What the environment says to a file worker. -/
structure FileEnv where
  /-- What `pread` or `pwrite` returns, `none` when it or `open` fails. -/
  nBytes : Option Nat := none
  /-- `MkDir` (or the directory is there) or `Rename` succeeds. -/
  ok : Bool := true
deriving DecidableEq, Repr

/-- The events. -/
inductive Event where
  /-- A caller enters `Submit`. -/
  | submit (c : Nat) (type : TaskType) (grouped : Grouped)
  /-- A caller enters `Wait`. -/
  | wait (c : Nat) (handle : Nat)
  /-- The next step of a caller. -/
  | client (c : Nat) (env : ClientEnv)
  /-- The next step of a worker of the file pool. -/
  | file (i : Nat) (env : FileEnv)
  /-- The next step of a worker of the device pool. -/
  | device (i : Nat) (env : DeviceEnv)
  /-- The next step of the monitor of the file pool. -/
  | monitor (overdue added : Bool)

/-- `TransTask`'s constructor and `TransManager::Submit` up to the loops of `Dispatch`. -/
def submit (c : Nat) (type : TaskType) (grouped : Grouped) (s : State) : Option State :=
  match s.clients[c]? with
  | some .idle =>
    let task : TransTask := ⟨s.nextId, type, grouped⟩
    let pc : ClientPc := match type with
      | .dump => .copy task grouped.groups []
      | .load => .dispatch task grouped.groups
    some { s.setClient c pc with
      nextId := s.nextId + 1
      latch := Function.update s.latch task.id task.groupNumber
      tasks := task :: s.tasks
      submitted := s.submitted ++ [task] }
  | _ => none

/-- `TransManager::Wait` up to its first wait. -/
def wait (c handle : Nat) (s : State) : Option State :=
  match s.clients[c]?, s.tasks.find? fun t => t.id = handle with
  | some .idle, some task =>
    some { s.setClient c (.waitFor task) with tasks := s.tasks.erase task }
  | some .idle, none => some s
  | _, _ => none

/-- The next step of a caller in `Submit`. -/
def dispatchStep (cfg : Config) (env : DeviceEnv) (c : Nat) (s : State) :
    ClientPc → Option State
  | .dispatch _ [] => some (s.setClient c .idle)
  | .dispatch task (g :: rest) =>
    let t := task.blockTask g
    let s' := if task.type = .dump then s.pushDev t else s.pushFile t
    some (s'.setClient c (.dispatch task rest))
  | .copy task [] blocks => some (s.setClient c (.sync task blocks))
  | .copy task (g :: rest) blocks =>
    let t := task.dumpTask g
    let sm := cfg.scatterGatherEnable
    some { s.setClient c (.copy task rest (blocks ++ [t])) with
      copies := s.copies ++ env.copies sm t
      copied := if env.copyOk sm t.shards then t.item :: s.copied else s.copied }
  | .sync task blocks =>
    let copies := s.copies.filter fun copy => copy.owner ≠ task.id
    if env.syncOk then
      some { s.setClient c (.push blocks) with copies := copies, synced := task.id :: s.synced }
    else
      some { s.setClient c (.failInsert task blocks) with
        copies := if env.settled then copies else s.copies }
  | .failInsert task blocks => some ((s.fail task.id).setClient c (.failDone blocks))
  | .failDone [] => some (s.setClient c .idle)
  | .failDone (b :: _) => some ((s.done b).setClient c .idle)
  | .push [] => some (s.setClient c .idle)
  | .push (b :: blocks) => some ((s.pushFile b).setClient c (.done b blocks))
  | .done b blocks => some ((s.done b).setClient c (.push blocks))
  | .idle | .waitFor _ | .contains _ | .insert _ | .drain _ | .remove _ _ => none

/-- The next step of a caller in `Wait`. -/
def waitStep (cfg : Config) (timedOut : Bool) (c : Nat) (s : State) : ClientPc → Option State
  | .waitFor task =>
    if s.latch task.id = 0 then some (s.setClient c (.contains task))
    else if cfg.timeoutMs ≠ 0 ∧ timedOut then some (s.setClient c (.insert task))
    else none
  | .contains task =>
    if task.id ∈ s.failureSet then some (s.setClient c (.remove task .error))
    else some (s.finishWait c task.id .ok)
  | .insert task => some ((s.fail task.id).setClient c (.drain task))
  | .drain task =>
    if s.latch task.id = 0 then some (s.setClient c (.remove task .timeout)) else none
  | .remove task status =>
    some ({ s with failureSet := s.failureSet.erase task.id }.finishWait c task.id status)
  | .idle | .dispatch _ _ | .copy _ _ _ | .sync _ _ | .failInsert _ _ | .failDone _ | .push _
  | .done _ _ => none

/-- The place is in `Wait`. -/
def ClientPc.waits : ClientPc → Bool
  | .waitFor _ | .contains _ | .insert _ | .drain _ | .remove _ _ => true
  | _ => false

/-- The next step of a caller. -/
def clientStep (cfg : Config) (env : ClientEnv) (c : Nat) (s : State) : Option State :=
  match s.clients[c]? with
  | none => none
  | some pc =>
    if pc.waits then waitStep cfg env.timedOut c s pc else dispatchStep cfg env.device c s pc

/-- `FileWorker`: one step of the function worker `w` runs on `t`. `none` where an empty `done` is
called. -/
def fileBody (cfg : Config) (i : Nat) (env : FileEnv) (w : Worker BlockTask FilePc) (t : BlockTask)
    (s : State) : FilePc → Option State
  | .contains =>
    if t.owner ∈ s.failureSet then
      if t.type ≠ .dump then some (s.setFile i { w with pc := .run t .done })
      else some (s.setFile i { w with pc := .ret t })
    else some (s.setFile i { w with pc := .run t .io })
  | .io =>
    let success := env.nBytes = some (cfg.ioSize * t.shards.length)
    match t.type with
    | .dump =>
      if success then
        let pc : FilePc := if cfg.shardDataDir then .mkdir else .rename
        some { s.setFile i { w with pc := .run t pc } with written := t.item :: s.written }
      else some (s.setFile i { w with pc := .run t .remove })
    | .load =>
      if success then some (s.setFile i { w with pc := .run t .push })
      else some (s.setFile i { w with pc := .run t .insert })
  | .mkdir =>
    if env.ok then some (s.setFile i { w with pc := .run t .rename })
    else some (s.setFile i { w with pc := .run t .remove })
  | .rename =>
    if env.ok then
      some { s.setFile i { w with pc := .ret t } with archived := t.item :: s.archived }
    else some (s.setFile i { w with pc := .run t .remove })
  | .remove => some (s.setFile i { w with pc := .ret t })
  | .push => some ((s.pushDev t).setFile i { w with pc := .ret t })
  | .insert => some ((s.fail t.owner).setFile i { w with pc := .run t .done })
  | .done => if t.done then some ((s.done t).setFile i { w with pc := .ret t }) else none

/-- The next step of a worker of the file pool. -/
def fileStep (cfg : Config) (i : Nat) (env : FileEnv) (s : State) : Option State :=
  match s.filePool.threads[i]? with
  | none => none
  | some w =>
    match w.pc with
    | .run t p => fileBody cfg i env w t s p
    | _ => (s.filePool.workerStep .contains i).map fun b => { s with filePool := b }

/-- `DeviceWorker`: one step of the function worker `w` runs on `t`. `none` where an empty `done` is
called. -/
def deviceBody (i : Nat) (env : DeviceEnv) (w : Worker BlockTask DevicePc) (t : BlockTask)
    (s : State) : DevicePc → Option State
  | .contains =>
    if t.owner ∈ s.failureSet then some (s.setDev i { w with pc := .run t .done })
    else some (s.setDev i { w with pc := .run t .issue })
  | .issue =>
    let copies := s.copies ++ env.copies false t
    if env.copyOk false t.shards then
      some { s.setDev i { w with pc := .run t .sync } with copies := copies }
    else some { s.setDev i { w with pc := .run t .insert } with copies := copies }
  | .sync =>
    let copies := s.copies.filter fun copy => copy.item ≠ t.item
    if env.syncOk then
      match t.type with
      | .load => some { s.setDev i { w with pc := .run t .done } with copies := copies }
      | .dump =>
        some { s.setDev i { w with pc := .run t .push } with
          copies := copies, copied := t.item :: s.copied, synced := t.owner :: s.synced }
    else
      some { s.setDev i { w with pc := .run t .insert } with
        copies := if env.settled then copies else s.copies }
  | .push => some ((s.pushFile t).setDev i { w with pc := .run t .done })
  | .insert => some ((s.fail t.owner).setDev i { w with pc := .run t .done })
  | .done => if t.done then some ((s.done t).setDev i { w with pc := .ret t }) else none

/-- The next step of a worker of the device pool. -/
def deviceStep (i : Nat) (env : DeviceEnv) (s : State) : Option State :=
  match s.devPool.threads[i]? with
  | none => none
  | some w =>
    match w.pc with
    | .run t p => deviceBody i env w t s p
    | _ => (s.devPool.workerStep .contains i).map fun b => { s with devPool := b }

/-- The next step of the monitor of the file pool, with `FileWorkerTimeout` as its timeout
function. -/
def monitorStep (cfg : Config) (overdue added : Bool) (s : State) : Option State :=
  if cfg.timeoutMs = 0 then none
  else
    let b := s.filePool
    match b.monitor with
    | .timeout it t .insert =>
      let s' := if t.type ≠ .dump then s.fail t.owner else s
      some { s' with filePool := { b with monitor := .timeout it t .done } }
    | .timeout it t .done =>
      let s' := if t.done then { s.done t with expired := t.item :: s.expired } else s
      some { s' with filePool := { b with monitor := .stop it } }
    | _ => (b.monitorStep cfg.streamNumber .insert overdue added).map fun b => { s with filePool := b }

/-- One event. -/
def step (cfg : Config) (s : State) : Event → Option State
  | .submit c type grouped => submit c type grouped s
  | .wait c handle => wait c handle s
  | .client c env => clientStep cfg env c s
  | .file i env => fileStep cfg i env s
  | .device i env => deviceStep i env s
  | .monitor overdue added => monitorStep cfg overdue added s

/-- The store with any number of callers. -/
def machine (cfg : Config) : Machine State Event where
  init s := ∃ nClient, s = State.start cfg nClient
  step := step cfg

/-! ## The calls of `Done` that are still to come -/

/-- The blocks a caller in `Submit` still has to hand over, or to call `Done` for. -/
def ClientPc.owed : ClientPc → List Item
  | .dispatch task rest => rest.map fun g => (task.id, g.block)
  | .copy task rest blocks =>
    blocks.map BlockTask.item ++ rest.map fun g => (task.id, g.block)
  | .sync _ blocks | .failInsert _ blocks | .failDone blocks | .push blocks =>
    blocks.map BlockTask.item
  | .done b blocks => b.item :: blocks.map BlockTask.item
  | .idle | .waitFor _ | .contains _ | .insert _ | .drain _ | .remove _ _ => []

namespace State

variable (s : State)

/-- The loads among some block tasks for which `FileWorkerTimeout` has not called `Done`. -/
def loads (l : List BlockTask) : List BlockTask :=
  l.filter fun t => t.type = .load ∧ t.item ∉ s.expired

/-- The loads in the file pool, but for those that `FileWorkerTimeout` called `Done` for. -/
def loading : List BlockTask :=
  s.filePool.held.filter fun t => t.type = .load ∧ t.item ∉ s.expired

/-- The blocks whose call of `Done` is still to come. -/
def owed : List Item :=
  s.clients.flatMap ClientPc.owed ++ (s.loading.map BlockTask.item ++
    s.devPool.held.map BlockTask.item)

/-- How many of them belong to the task. -/
def owedOf (id : Nat) : Nat := s.owed.countP fun x => x.1 = id

/-- How often `Done` was called on the waiter of the task. -/
def doneCalls (id : Nat) : Nat := s.dones.countP fun x => x.1 = id

/-- The blocks of all tasks submitted. -/
def issued : List Item := s.submitted.flatMap TransTask.items

/-- The store as a ledger: the blocks under the counters of the waiters. -/
def ledger : Ledger Item Nat := ⟨s.issued, s.owed, s.dones, s.latch⟩

end State

/-- A thread that has the block can go on, or the block is in the queue of a pool. -/
inductive Moving (cfg : Config) (s : State) (x : Item) : Prop where
  | client (c : Nat) (pc : ClientPc) (env : ClientEnv) (hc : s.clients[c]? = some pc)
      (hx : x ∈ pc.owed) (hstep : step cfg s (.client c env) ≠ none)
  | file (i : Nat) (w : Worker BlockTask FilePc) (env : FileEnv)
      (hw : s.filePool.threads[i]? = some w) (hx : x ∈ w.held.map BlockTask.item)
      (hstep : step cfg s (.file i env) ≠ none)
  | device (i : Nat) (w : Worker BlockTask DevicePc) (env : DeviceEnv)
      (hw : s.devPool.threads[i]? = some w) (hx : x ∈ w.held.map BlockTask.item)
      (hstep : step cfg s (.device i env) ≠ none)
  | fileQueue (hx : x ∈ s.filePool.queue.held.map BlockTask.item)
  | devQueue (hx : x ∈ s.devPool.queue.held.map BlockTask.item)

/-- What may not happen to a caller that synchronises a dump: failing with more than one block, or
with copies in flight afterwards. -/
def ClientPc.InTurn (env : DeviceEnv) : ClientPc → Prop
  | .sync _ blocks => env.syncOk = false → blocks.length ≤ 1 ∧ env.settled = true
  | _ => True

/-- The monitor calls `Done` for a load only while its file worker has it and neither of them has
called `Done` for it. -/
def State.ExpiresFirst (s : State) : Prop :=
  match s.filePool.monitor with
  | .timeout _ t .done => t.done = true → t ∈ s.loading
  | _ => True

/-- A worker does not go on with a block that `FileWorkerTimeout` called `Done` for. -/
def State.NotExpired (s : State) (i : Nat) : Prop :=
  ∀ w ∈ s.filePool.threads[i]?, ∀ t ∈ w.held, t.item ∉ s.expired

/-- A device worker's copies and their synchronisation only fail so that none of the copies is in
flight afterwards. -/
def DevicePc.InTurn (env : DeviceEnv) (t : BlockTask) : DevicePc → Prop
  | .issue => env.copyOk false t.shards = false → env.issued false t.shards = []
  | .sync => env.syncOk = false → env.settled = true
  | _ => True

/-- The device worker does so in this step. -/
def State.DeviceInTurn (s : State) (i : Nat) (env : DeviceEnv) : Prop :=
  match s.devPool.threads[i]? with
  | some ⟨.run t p, _, _, _⟩ => p.InTurn env t
  | _ => True

/-- `Done` is called in turn in this step. -/
def InTurn (s : State) : Event → Prop
  | .client c env => ∀ pc ∈ s.clients[c]?, pc.InTurn env.device
  | .file i _ => s.NotExpired i
  | .device i env => s.DeviceInTurn i env
  | .monitor _ _ => s.ExpiresFirst
  | .submit _ _ _ | .wait _ _ => True

/-! ## What is committed -/

/-- When the copies of a dump are synchronised without an error, issuing them had no error. -/
def ClientPc.Reported (env : DeviceEnv) (copied : List Item) : ClientPc → Prop
  | .sync _ blocks => env.syncOk = true → ∀ b ∈ blocks, b.item ∈ copied
  | _ => True

/-- The same of the caller that takes the step. -/
def CopiesReported (s : State) : Event → Prop
  | .client c env => ∀ pc ∈ s.clients[c]?, pc.Reported env.device s.copied
  | .submit _ _ _ | .wait _ _ | .file _ _ | .device _ _ | .monitor _ _ => True

/-! ## Tests -/

instance (env : DeviceEnv) (pc : ClientPc) : Decidable (pc.InTurn env) := by
  cases pc with
  | sync _ _ => exact inferInstanceAs (Decidable (_ → _))
  | _ => exact .isTrue trivial

instance (env : DeviceEnv) (copied : List Item) (pc : ClientPc) :
    Decidable (pc.Reported env copied) := by
  cases pc with
  | sync _ _ => exact inferInstanceAs (Decidable (_ → _))
  | _ => exact .isTrue trivial

instance (s : State) : Decidable s.ExpiresFirst := by
  unfold State.ExpiresFirst
  split <;> infer_instance

instance (env : DeviceEnv) (t : BlockTask) (p : DevicePc) : Decidable (p.InTurn env t) := by
  cases p with
  | issue | sync => exact inferInstanceAs (Decidable (_ → _))
  | _ => exact .isTrue trivial

instance (s : State) (i : Nat) (env : DeviceEnv) : Decidable (s.DeviceInTurn i env) := by
  unfold State.DeviceInTurn
  split <;> infer_instance

instance (s : State) (i : Nat) : Decidable (s.NotExpired i) :=
  inferInstanceAs (Decidable (∀ w ∈ s.filePool.threads[i]?, _))

instance (s : State) (e : Event) : Decidable (InTurn s e) := by
  cases e with
  | client c env => exact inferInstanceAs (Decidable (∀ pc ∈ s.clients[c]?, _))
  | file i env => exact inferInstanceAs (Decidable (s.NotExpired i))
  | device i env => exact inferInstanceAs (Decidable (s.DeviceInTurn i env))
  | monitor _ _ => exact inferInstanceAs (Decidable s.ExpiresFirst)
  | _ => exact .isTrue trivial

instance (s : State) (e : Event) : Decidable (CopiesReported s e) := by
  cases e with
  | client c env => exact inferInstanceAs (Decidable (∀ pc ∈ s.clients[c]?, _))
  | _ => exact .isTrue trivial

end UnifiedCache.PcStore
