import UnifiedCache.Infra.SpscRingQueue
import UnifiedCache.Lib.Machine

/-!
# Submitting tasks

`CacheStore::Load` and `CacheStore::Dump` from any number of threads: the task gets its id,
`TaskWrapper::Submit` enters it into `tasks_` under the lock and, the lock given back, dispatches it;
`LoadQueue::Submit` and `DumpQueue::Submit` push it into the `waiting_` ring of their queue, whose
consumer is one thread.

Shards and addresses of the tasks are left out, and so is what the consumers do with a task.
-/

open Lib UnifiedCache.Infra

namespace UnifiedCache.Cache.Submit

/-- `TransTask::Type`. -/
inductive Kind where
  | load
  | dump
deriving DecidableEq, Repr

/-- `TransTask`. -/
structure TransTask where
  id : Nat
  type : Kind
deriving DecidableEq, Repr

/-- What `Submit` returns. -/
inductive Answer where
  | handle (id : Nat)
  | duplicateKey
deriving DecidableEq, Repr

/-- Where a thread stands in `TaskWrapper::Submit`. -/
inductive SubmitPc where
  /-- Outside, with the last answer. -/
  | out (answer : Option Answer)
  /-- Before the section that enters the task into `tasks_`. -/
  | emplace (task : TransTask)
  /-- Before `waiter->Up()`. -/
  | up (task : TransTask)
  /-- In `waiting_.TryPush`. -/
  | push (task : TransTask)
  /-- The queue is full: before `failureSet_->Insert`. -/
  | fail (task : TransTask)
  /-- Before `waiter->Done()`. -/
  | done (task : TransTask)
deriving DecidableEq, Repr

/-- The transfer manager and its callers. -/
structure State (τ : Type*) where
  /-- The counter of `NextId`. -/
  nextId : Nat
  /-- The handles in `tasks_`. -/
  tasks : List Nat
  /-- The counters of the waiters. -/
  waiter : Nat → Nat
  failureSet : List Nat
  /-- `waiting_` of the load queue and of the dump queue. -/
  waiting : Kind → RingUse τ TransTask
  pc : τ → SubmitPc

inductive Event (τ : Type*) where
  /-- A thread calls `Load` or `Dump`. -/
  | submit (t : τ) (type : Kind)
  /-- The next step of a caller. -/
  | step (t : τ)
  /-- The next access of a consumer in `TryPop`. -/
  | consume (type : Kind)
deriving DecidableEq

namespace State

variable {τ : Type*} [DecidableEq τ]

/-- Where a thread goes on. -/
def goto (s : State τ) (t : τ) (pc : SubmitPc) : State τ :=
  { s with pc := Function.update s.pc t pc }

/-- Replaces one of the rings. -/
def setWaiting (s : State τ) (type : Kind) (u : RingUse τ TransTask) : State τ :=
  { s with waiting := Function.update s.waiting type u }

/-- The next step of a caller. -/
def callerStep (s : State τ) (t : τ) : Option (State τ) :=
  match s.pc t with
  | .out _ => none
  | .emplace task =>
    if task.id ∈ s.tasks then some (s.goto t (.out (some .duplicateKey)))
    else some ({ s with tasks := task.id :: s.tasks }.goto t (.up task))
  | .up task =>
    some (({ s with waiter := Function.update s.waiter task.id (s.waiter task.id + 1) }.setWaiting
      task.type ((s.waiting task.type).enter t task)).goto t (.push task))
  | .push task =>
    ((s.waiting task.type).pushStep t).map fun (u, answer) =>
      match answer with
      | none => s.setWaiting task.type u
      | some true => (s.setWaiting task.type u).goto t (.out (some (.handle task.id)))
      | some false => (s.setWaiting task.type u).goto t (.fail task)
  | .fail task => some ({ s with failureSet := task.id :: s.failureSet }.goto t (.done task))
  | .done task =>
    some ({ s with waiter := Function.update s.waiter task.id (s.waiter task.id - 1) }.goto t
      (.out (some (.handle task.id))))

/-- One event. -/
def step (s : State τ) : Event τ → Option (State τ)
  | .submit t type =>
    match s.pc t with
    | .out _ => some ({ s with nextId := s.nextId + 1 }.goto t (.emplace ⟨s.nextId, type⟩))
    | _ => none
  | .step t => s.callerStep t
  | .consume type => some (s.setWaiting type (s.waiting type).popStep)

/-- The manager after `Setup`. -/
def start (waitingQueueDepth : Nat) : State τ where
  nextId := 1
  tasks := []
  waiter := fun _ => 0
  failureSet := []
  waiting := fun _ => .start waitingQueueDepth
  pc := fun _ => .out none

end State

section

variable {τ : Type*} [DecidableEq τ]

/-- All runs, for a depth `CheckConfig` accepts. -/
def machine (waitingQueueDepth : Nat) : Machine (State τ) (Event τ) where
  init s := 1 < waitingQueueDepth ∧ s = .start waitingQueueDepth
  step := State.step

/-- A thread that writes its slot of a ring in this step does not race. -/
def Unraced (s : State τ) : Event τ → Prop
  | .step t =>
    match s.pc t with
    | .push task => (s.waiting task.type).Unraced t
    | _ => True
  | _ => True

instance [Fintype τ] (s : State τ) (e : Event τ) : Decidable (Unraced s e) := by
  unfold Unraced
  split
  · split <;> infer_instance
  · infer_instance

end

end UnifiedCache.Cache.Submit
