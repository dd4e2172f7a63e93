import Mathlib.Data.List.Basic
import Mathlib.Tactic.Common

/-!
# The thread pool

`ThreadPool<Task>` of `shared/infra/thread`: a queue of tasks under one mutex, worker threads that
take tasks from its front, a monitor that gives up on a worker whose task takes too long and starts
another one in its place, and `TraverseWaitQueue`, which walks over a snapshot of the queue while new
tasks are parked.

Everything here is one critical section or one access to an atomic, in the order the source makes
them. The worker function and the timeout function belong to the user of the pool: where a worker or
the monitor stands inside of them is a value of `π` and `θ`. Time is not modelled; that a task is
overdue is what the environment says.
-/

namespace UnifiedCache.Infra

/-! ## The queue -/

/-- What `taskMtx_` guards. -/
structure WaitQueue (τ : Type*) where
  taskQ : List τ
  taskPending : List τ
  drain : Bool

namespace WaitQueue

variable {τ : Type*}

/-- The queue of a new pool. -/
def empty : WaitQueue τ := ⟨[], [], false⟩

/-- `Push`: while a traversal drains the queue, new tasks are parked. -/
def push (q : WaitQueue τ) (tasks : List τ) : WaitQueue τ :=
  if q.drain then { q with taskPending := q.taskPending ++ tasks }
  else { q with taskQ := q.taskQ ++ tasks }

/-- A worker takes the front of the queue. -/
def pop (q : WaitQueue τ) : Option (τ × WaitQueue τ) :=
  match q.taskQ with
  | [] => none
  | t :: ts => some (t, { q with taskQ := ts })

/-- The first section of `TraverseWaitQueue`, unless another traversal is under way. -/
def swap (q : WaitQueue τ) : Option (List τ × WaitQueue τ) :=
  if q.drain then none else some (q.taskQ, { q with taskQ := [], drain := true })

/-- Tasks of the snapshot go back to the queue. -/
def splice (q : WaitQueue τ) (tasks : List τ) : WaitQueue τ := { q with taskQ := q.taskQ ++ tasks }

/-- The last section of `TraverseWaitQueue`: the rest of the snapshot, then what was parked. -/
def finish (q : WaitQueue τ) (snapshot : List τ) : WaitQueue τ :=
  ⟨q.taskQ ++ snapshot ++ q.taskPending, [], false⟩

/-- The tasks in the queue. -/
def held (q : WaitQueue τ) : List τ := q.taskQ ++ q.taskPending

end WaitQueue

/-! ## Traversal -/

/-- Where a call of `TraverseWaitQueue` stands. The snapshot is cut at `it`: `kept` has been passed
over, `rest` starts with the task `it` points to. -/
inductive Traverse (τ : Type*) where
  | swap
  | scan (kept rest : List τ) (processed : Nat)
  /-- The visitor runs on a task that is still in the snapshot. -/
  | visit (kept : List τ) (task : τ) (rest : List τ) (processed : Nat)
  | splice (kept rest : List τ)
  | finish (snapshot : List τ)

namespace Traverse

variable {τ : Type*}

/-- One step of a traversal, with what the early stopper and the filter say now. The visitor is not
part of it: its last step is `visited`. `none` for the place means that the call has returned. -/
def step (nWorker : Nat) (earlyStopper filter : τ → Bool) (q : WaitQueue τ) :
    Traverse τ → Option (Option (Traverse τ) × WaitQueue τ)
  | .swap =>
    match q.swap with
    | none => some (none, q)
    | some (snapshot, q') => some (some (.scan [] snapshot 0), q')
  | .scan kept [] _ => some (some (.finish kept), q)
  | .scan kept (task :: rest) processed =>
    if earlyStopper task then some (some (.finish (kept ++ task :: rest)), q)
    else if filter task then some (some (.visit kept task rest processed), q)
    else if processed + 1 = nWorker then some (some (.splice (kept ++ [task]) rest), q)
    else some (some (.scan (kept ++ [task]) rest (processed + 1)), q)
  | .visit _ _ _ _ => none
  | .splice kept rest => some (some (.scan [] rest 0), q.splice kept)
  | .finish snapshot => some (none, q.finish snapshot)

/-- The visitor has returned: the task is erased from the snapshot. -/
def visited (kept rest : List τ) (processed : Nat) : Traverse τ := .scan kept rest processed

/-- The tasks in the snapshot. -/
def held : Traverse τ → List τ
  | .swap => []
  | .scan kept rest _ => kept ++ rest
  | .visit kept task rest _ => kept ++ task :: rest
  | .splice kept rest => kept ++ rest
  | .finish snapshot => snapshot

/-- What a call of `TraverseWaitQueue` has in hand: nothing once it has returned. -/
def rest : Option (Traverse τ) → List τ
  | none => []
  | some t => t.held

end Traverse

/-! ## Workers -/

/-- Where a worker thread stands in `WorkerLoop`. -/
inductive WorkerPc (τ π : Type*) where
  | wait
  /-- The task has been taken and is not yet stored in `current`. -/
  | taken (task : τ)
  /-- The task is in `current` and `tp` is not yet stored. -/
  | stored (task : τ)
  /-- Inside of the worker function. -/
  | run (task : τ) (p : π)
  /-- The worker function has returned. -/
  | ret (task : τ)
  /-- `current` has been reset and `tp` has not. -/
  | reset (task : τ)
  | exited

/-- A worker. `current` is what locking the weak pointer gives, `tp` whether a time is stored. -/
structure Worker (τ π : Type*) where
  pc : WorkerPc τ π
  stop : Bool
  current : Option τ
  tp : Bool

namespace Worker

variable {τ π : Type*}

/-- A worker that has just been started. -/
def start : Worker τ π := ⟨.wait, false, none, false⟩

/-- One step of `WorkerLoop` outside of the worker function, which starts at `p₀`. -/
def step (p₀ : π) (q : WaitQueue τ) (w : Worker τ π) : Option (Worker τ π × WaitQueue τ) :=
  match w.pc with
  | .wait =>
    if w.stop then some ({ w with pc := .exited }, q)
    else q.pop.map fun (task, q') => ({ w with pc := .taken task }, q')
  | .taken task => some ({ w with pc := .stored task, current := some task }, q)
  | .stored task => some ({ w with pc := .run task p₀, tp := true }, q)
  | .run _ _ => none
  | .ret task =>
    -- Leaving the loop destroys the task, so that `current` expires on both ways.
    if w.stop then some ({ w with pc := .exited, current := none }, q)
    else some ({ w with pc := .reset task, current := none }, q)
  | .reset _ => some ({ w with pc := .wait, tp := false }, q)
  | .exited => none

/-- The task a worker has taken and whose worker function has not returned. -/
def held (w : Worker τ π) : List τ :=
  match w.pc with
  | .taken task | .stored task | .run task _ => [task]
  | .wait | .ret _ | .reset _ | .exited => []

end Worker

/-! ## The monitor -/

/-- Where the monitor stands in `MonitorLoop`; `it` is the worker it looks at. -/
inductive MonitorPc (τ θ : Type*) where
  | sleep
  | load (it : Nat)
  | lock (it : Nat) (tp : Bool)
  | check (it : Nat) (tp : Bool) (task : Option τ)
  /-- Inside of the timeout function. -/
  | timeout (it : Nat) (task : τ) (p : θ)
  | stop (it : Nat)
  /-- Workers are added until there are `nWorker_` again. -/
  | add (n : Nat)

/-- A thread pool. `threads` are all workers ever started, `workers` the places of those that are in
`workers_`; a worker the monitor has detached is only in `threads`. -/
structure ThreadPool (τ π θ : Type*) where
  queue : WaitQueue τ
  threads : List (Worker τ π)
  workers : List Nat
  monitor : MonitorPc τ θ

namespace ThreadPool

variable {τ π θ : Type*}

/-- A pool after `Run`. -/
def start (nWorker : Nat) : ThreadPool τ π θ :=
  ⟨.empty, List.replicate nWorker .start, List.range nWorker, .sleep⟩

/-- Replaces the queue. -/
def setQueue (b : ThreadPool τ π θ) (q : WaitQueue τ) : ThreadPool τ π θ := { b with queue := q }

/-- Replaces the worker at place `i`. -/
def setWorker (b : ThreadPool τ π θ) (i : Nat) (w : Worker τ π) : ThreadPool τ π θ :=
  { b with threads := b.threads.set i w }

/-- One step of the worker at place `i`, outside of the worker function. -/
def workerStep (p₀ : π) (i : Nat) (b : ThreadPool τ π θ) : Option (ThreadPool τ π θ) :=
  b.threads[i]?.bind fun w => (w.step p₀ b.queue).map fun (w', q') =>
    (b.setQueue q').setWorker i w'

/-- The worker `it` points to. -/
def worker? (b : ThreadPool τ π θ) (it : Nat) : Option (Nat × Worker τ π) :=
  b.workers[it]?.bind fun i => b.threads[i]?.map fun w => (i, w)

/-- One step of `MonitorLoop` outside of the timeout function, which starts at `p₀`. `overdue` is the
comparison of the times and `added` the outcome of `AddOneWorker`. -/
def monitorStep (nWorker : Nat) (p₀ : θ) (overdue added : Bool) (b : ThreadPool τ π θ) :
    Option (ThreadPool τ π θ) :=
  match b.monitor with
  | .sleep => some { b with monitor := .load 0 }
  | .load it =>
    match b.worker? it with
    | none => some { b with monitor := .add (nWorker - b.workers.length) }
    | some (_, w) => some { b with monitor := .lock it w.tp }
  | .lock it tp => (b.worker? it).map fun (_, w) => { b with monitor := .check it tp w.current }
  | .check it tp task =>
    match task with
    | none => some { b with monitor := .load (it + 1) }
    | some task =>
      if tp && overdue then some { b with monitor := .timeout it task p₀ }
      else some { b with monitor := .load (it + 1) }
  | .timeout _ _ _ => none
  | .stop it => (b.worker? it).map fun (i, w) =>
    { b.setWorker i { w with stop := true } with
      workers := b.workers.eraseIdx it
      monitor := .load it }
  | .add 0 => some { b with monitor := .sleep }
  | .add (n + 1) =>
    if added then some { b with
      threads := b.threads ++ [.start]
      workers := b.workers ++ [b.threads.length]
      monitor := .add n }
    else some { b with monitor := .add n }

/-- Whether the monitor gives up on a worker in this step. -/
def timesOut (overdue : Bool) (b : ThreadPool τ π θ) : Bool :=
  match b.monitor with
  | .check _ tp (some _) => tp && overdue
  | _ => false

/-- The tasks in the queue and those the workers execute. -/
def held (b : ThreadPool τ π θ) : List τ := b.queue.held ++ b.threads.flatMap Worker.held

/-- A worker runs the worker function on the task and stands at `p`. -/
def Runs (b : ThreadPool τ π θ) (task : τ) (p : π) : Prop := ∃ w ∈ b.threads, w.pc = .run task p

/-- The task the monitor looks at. -/
def monitored (b : ThreadPool τ π θ) : List τ :=
  match b.monitor with
  | .check _ _ task => task.toList
  | .timeout _ task _ => [task]
  | .sleep | .load _ | .lock _ _ | .stop _ | .add _ => []

/-- All tasks the pool knows of. -/
def tasks (b : ThreadPool τ π θ) : List τ :=
  b.held ++ (b.threads.flatMap fun w => w.current.toList) ++ b.monitored

end ThreadPool

end UnifiedCache.Infra
