import UnifiedCache.Lib.Machine
import Mathlib.Logic.Function.Basic

/-!
# Retrieval tasks of KVStar

`SubmitSingleTask` gives a task an id and pushes it to the queues in turn. The worker of a queue
runs one task after the other: the kernel writes the indices and the status into the result, or
throws, and then the runner does; the worker has the last word. `Wait` waits for the latch of a task
and looks it up in the failure set. `GetTaskResult` reads the result.
-/

open Lib

namespace UnifiedCache.Sparse.Retrieve

/-- `TaskStatus`. -/
inductive TaskStatus where
  | pending
  | running
  | success
  | failure
deriving DecidableEq

/-- `Status`. -/
inductive Status where
  | ok
  | error
  | notFound
  | outOfMemory
deriving DecidableEq

/-- `TaskResult`. -/
structure TaskResult where
  status : TaskStatus
  topkIndices : List Int
  errorMessage : String
deriving DecidableEq

/-- How `Execute` ends. -/
inductive Outcome where
  | completed (topkIndices : List Int)
  | thrown (what : String)
deriving DecidableEq

/-- What there is of a task. -/
structure Task where
  /-- `_counter` of its latch. -/
  counter : Nat
  /-- Its entry of `_resultMap`. -/
  result : Option TaskResult
  /-- How its executions have ended. -/
  executions : List Outcome
deriving DecidableEq

/-- Where a worker is with a task. -/
inductive WorkerPc where
  /-- Before it takes one. -/
  | waiting
  | popped (id : Nat)
  /-- Before it looks into the failure set. -/
  | checking (id : Nat)
  | executing (id : Nat)
  /-- In the `catch` of the runner. -/
  | catching (id : Nat) (what : String)
  /-- `Run` has returned this. -/
  | ran (id : Nat) (status : Status)
  /-- The failure set has the task. -/
  | inserted (id : Nat)
  /-- Before `Done`. -/
  | finishing (id : Nat)
deriving DecidableEq

/-- The task of a worker. -/
def WorkerPc.task : WorkerPc → Option Nat
  | .waiting => none
  | .popped id | .checking id | .executing id | .catching id _ | .ran id _ | .inserted id
  | .finishing id => some id

/-- Where a caller of `Wait` is. -/
inductive WaitPc where
  | idle
  /-- At the latch. -/
  | latch (id : Nat)
  /-- Before it looks into the failure set. -/
  | exist (id : Nat)
  /-- Before it takes the task out of it. -/
  | remove (id : Nat) (failure : Bool)
deriving DecidableEq

/-- The manager with its queues. -/
structure State where
  taskIdSeed : Nat
  lastTimeScheduledQueueIdx : Nat
  /-- The keys of `_waiters`. -/
  waiters : Nat → Bool
  tasks : Nat → Task
  taskQ : Nat → List Nat
  worker : Nat → WorkerPc
  failureSet : List Nat
  caller : Nat → WaitPc
  /-- The ids that `SubmitSingleTask` has returned with OK. -/
  submitted : List Nat
  /-- What calls of `Wait` have returned. -/
  waits : List (Nat × Status)

/-- The manager after `Setup`. -/
def State.start : State where
  taskIdSeed := 0
  lastTimeScheduledQueueIdx := 0
  waiters := fun _ => false
  tasks := fun _ => ⟨0, none, []⟩
  taskQ := fun _ => []
  worker := fun _ => .waiting
  failureSet := []
  caller := fun _ => .idle
  submitted := []
  waits := []

namespace State

variable (s : State)

/-- Changes the result of a task. -/
def setResult (id : Nat) (f : TaskResult → TaskResult) : State :=
  { s with tasks := Function.update s.tasks id { s.tasks id with result := (s.tasks id).result.map f } }

/-- Changes the status of a task. -/
def setStatus (id : Nat) (status : TaskStatus) : State :=
  s.setResult id fun result => { result with status := status }

/-- The worker of a queue goes on. -/
def setWorker (q : Nat) (pc : WorkerPc) : State :=
  { s with worker := Function.update s.worker q pc }

/-- `SubmitSingleTask` with `n` queues. -/
def submitSingleTask (n : Nat) : State :=
  let taskId := s.taskIdSeed + 1
  -- An id that is taken is out of memory.
  if s.waiters taskId ∨ (s.tasks taskId).result.isSome then { s with taskIdSeed := taskId }
  else
    { s with
      taskIdSeed := taskId
      waiters := Function.update s.waiters taskId true
      tasks := Function.update s.tasks taskId
        { s.tasks taskId with counter := 1, result := some ⟨.pending, [], ""⟩ }
      taskQ := Function.update s.taskQ s.lastTimeScheduledQueueIdx
        (s.taskQ s.lastTimeScheduledQueueIdx ++ [taskId])
      lastTimeScheduledQueueIdx := (s.lastTimeScheduledQueueIdx + 1) % n
      submitted := s.submitted ++ [taskId] }

/-- The end of `Execute`: the kernel has written the result, or the runner catches what it throws. -/
def execute (q id : Nat) (outcome : Outcome) : State :=
  let s := { s with
    tasks := Function.update s.tasks id
      { s.tasks id with executions := (s.tasks id).executions ++ [outcome] } }
  match outcome with
  | .completed topkIndices =>
    (s.setResult id fun result =>
      { result with topkIndices := topkIndices, status := .success }).setWorker q (.ran id .ok)
  | .thrown what => s.setWorker q (.catching id what)

/-- One step of the worker of a queue. -/
def work (q : Nat) (outcome : Outcome) : Option State :=
  match s.worker q with
  | .waiting =>
    match s.taskQ q with
    | [] => none
    | id :: taskQ => some ({ s with taskQ := Function.update s.taskQ q taskQ }.setWorker q (.popped id))
  | .popped id => some ((s.setStatus id .running).setWorker q (.checking id))
  | .checking id => some (s.setWorker q (if id ∈ s.failureSet then .finishing id else .executing id))
  | .executing id => some (s.execute q id outcome)
  | .catching id what =>
    -- The runner returns OK in any case.
    some ((s.setResult id fun result =>
      { result with errorMessage := what, status := .failure }).setWorker q (.ran id .ok))
  | .ran id status =>
    if status ≠ .ok then
      some ({ s with failureSet := s.failureSet ++ [id] }.setWorker q (.inserted id))
    else some ((s.setStatus id .success).setWorker q (.finishing id))
  | .inserted id => some ((s.setStatus id .failure).setWorker q (.finishing id))
  | .finishing id =>
    some ({ s with
      tasks := Function.update s.tasks id
        { s.tasks id with counter := (s.tasks id).counter - 1 } }.setWorker q .waiting)

/-- A caller of `Wait` takes the waiter of the task, if it is there. -/
def wait (c id : Nat) : State :=
  if s.waiters id then
    { s with
      waiters := Function.update s.waiters id false
      caller := Function.update s.caller c (.latch id) }
  else { s with waits := s.waits ++ [(id, .notFound)] }

/-- One step of a caller of `Wait`. -/
def waitStep (c : Nat) : Option State :=
  match s.caller c with
  | .idle => none
  | .latch id =>
    if (s.tasks id).counter = 0 then
      some { s with caller := Function.update s.caller c (.exist id) }
    else none
  | .exist id =>
    some { s with caller := Function.update s.caller c (.remove id (id ∈ s.failureSet)) }
  | .remove id failure =>
    some { s with
      failureSet := s.failureSet.filter (· ≠ id)
      caller := Function.update s.caller c .idle
      waits := s.waits ++ [(id, if failure then .error else .ok)] }

end State

/-- What happens. -/
inductive Event where
  | submit
  /-- The worker of queue `q` goes on; this is how `Execute` ends if it is there. -/
  | work (q : Nat) (outcome : Outcome)
  /-- The caller calls `Wait` for a task. -/
  | wait (c id : Nat)
  | waitStep (c : Nat)

/-- One step with `n` queues. -/
def step (n : Nat) (s : State) : Event → Option State
  | .submit => some (s.submitSingleTask n)
  | .work q outcome => s.work q outcome
  | .wait c id => if s.caller c = .idle then some (s.wait c id) else none
  | .waitStep c => s.waitStep c

/-- The machine of a manager with `n` queues. -/
def machine (n : Nat) : Machine State Event where
  init s := s = .start
  step := step n

/-- What `GetTaskResult` returns. -/
inductive Report where
  | pending
  | running
  | success (data : List Int)
  | failure (error : String)
deriving DecidableEq

/-- `GetTaskResult`. -/
def getTaskResult (s : State) (id : Nat) : Option Report :=
  (s.tasks id).result.map fun result =>
    match result.status with
    | .pending => .pending
    | .running => .running
    | .success => .success result.topkIndices
    | .failure => .failure result.errorMessage

/-! ## Outcomes -/

/-- The report that tells how an execution has ended. -/
def Outcome.report : Outcome → Report
  | .completed topkIndices => .success topkIndices
  | .thrown what => .failure what

/-- A task is reported as its execution has ended, and `Wait` has returned an error when it has
failed. -/
def Truthful (s : State) (id : Nat) (outcome : Outcome) (status : Status) : Prop :=
  getTaskResult s id = some outcome.report ∧ (status = .error ↔ ∃ what, outcome = .thrown what)

/-- The worker of a queue gets ahead. -/
def WorkerAdvances (q : Nat) (s s' : State) : Prop := s'.worker q ≠ s.worker q

/-- The steps that a worker needs for its task. -/
def WorkerPc.remaining : WorkerPc → Nat
  | .waiting => 0
  | .finishing _ => 1
  | .inserted _ => 2
  | .ran _ _ => 3
  | .catching _ _ => 4
  | .executing _ => 5
  | .checking _ => 6
  | .popped _ => 7

/-- The steps that a worker needs for the tasks of a queue up to this one. -/
def stepsAhead (id : Nat) (taskQ : List Nat) : Nat :=
  if id ∈ taskQ then 8 * (taskQ.idxOf id + 1) else 0

/-- The steps of the worker of queue `q` until it has executed a task. -/
def State.remaining (s : State) (q id : Nat) : Nat :=
  (s.worker q).remaining + stepsAhead id (s.taskQ q)

end UnifiedCache.Sparse.Retrieve
