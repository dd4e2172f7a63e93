import UnifiedCache.Infra.ThreadPool
import UnifiedCache.Lib.Machine

/-!
# Traversals of the wait queue

The tasks of a thread pool between `Push` and the hands of a worker or a visitor: pushes, workers that
take the front of the queue, and any number of threads in `TraverseWaitQueue`, in any order of their
critical sections. What the early stopper and the filter say is the event's, so they may depend on
anything. Without a filter or a visitor `TraverseWaitQueue` returns at once, which is no step.
-/

namespace UnifiedCache.Infra

/-- The queue with all calls of `TraverseWaitQueue`, and the tasks as they came and went: all that were
pushed, those that workers have taken, and those that were visited, in order. -/
structure Traversals (τ : Type*) where
  queue : WaitQueue τ
  /-- `none` is a call that has returned. -/
  calls : List (Option (Traverse τ))
  pushed : List τ
  taken : List τ
  visited : List τ

/-- What may happen. -/
inductive TraversalEvent (τ : Type*) where
  /-- `Push` of a task or a list of tasks. -/
  | push (tasks : List τ)
  /-- A worker takes a task. -/
  | take
  /-- A thread calls `TraverseWaitQueue`. -/
  | call
  /-- The next step of a call, with the answers of the early stopper and the filter. -/
  | traverse (i : Nat) (earlyStop filter : Bool)
  /-- The visitor returns, and the task is erased. -/
  | visited (i : Nat)

namespace Traversals

variable {τ : Type*}

/-- A new pool. -/
def start : Traversals τ := ⟨.empty, [], [], [], []⟩

/-- Places with a task each: the queue, the pending list, the snapshots, the workers and the
visitors. -/
def places (s : Traversals τ) : List τ :=
  s.queue.taskQ ++ s.queue.taskPending ++ s.calls.flatMap Traverse.rest ++ s.taken ++ s.visited

/-- The call has not begun or has returned. -/
def Idle (call : Option (Traverse τ)) : Prop := call = none ∨ call = some .swap

variable [DecidableEq τ]

/-- One step. Tasks are objects, so a push is of new ones. -/
def step (nWorker : Nat) (s : Traversals τ) : TraversalEvent τ → Option (Traversals τ)
  | .push tasks =>
    if tasks.Nodup ∧ ∀ task ∈ tasks, task ∉ s.pushed then
      some { s with queue := s.queue.push tasks, pushed := s.pushed ++ tasks }
    else none
  | .take => s.queue.pop.map fun (task, queue) =>
    { s with queue := queue, taken := s.taken ++ [task] }
  | .call => some { s with calls := s.calls ++ [some .swap] }
  | .traverse i earlyStop filter =>
    match s.calls[i]? with
    | some (some call) =>
      (call.step nWorker (fun _ => earlyStop) (fun _ => filter) s.queue).map fun (call, queue) =>
        { s with queue := queue, calls := s.calls.set i call }
    | _ => none
  | .visited i =>
    match s.calls[i]? with
    | some (some (.visit kept task rest processed)) =>
      some { s with
        calls := s.calls.set i (some (Traverse.visited kept rest processed))
        visited := s.visited ++ [task] }
    | _ => none

/-- The tasks that were pushed and not visited, in the order in which they were pushed. -/
def unvisited (s : Traversals τ) : List τ := s.pushed.filter fun task => task ∉ s.visited

end Traversals

/-- All runs. -/
def traversalMachine (τ : Type*) [DecidableEq τ] (nWorker : Nat) :
    Lib.Machine (Traversals τ) (TraversalEvent τ) where
  init s := s = .start
  step := Traversals.step nWorker

end UnifiedCache.Infra
