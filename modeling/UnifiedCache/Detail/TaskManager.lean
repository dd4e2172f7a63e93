import UnifiedCache.Lib.Machine
import Mathlib.Logic.Function.Basic

/-!
# Tasks of the stores

A `Task` collects shards. `TaskManager::Submit` splits it into lists for the queues, which get them in
turn, and the last shard of every list counts the waiter of the task down. The queues work off their
shards in order.

What is undefined in C++ (a division by zero, an iterator past the end, `back` of an empty list) has the
result `none`.
-/

open Lib

namespace UnifiedCache.Detail

/-- `Task::Type`. -/
inductive TaskType where
  | dump
  | load
deriving DecidableEq

/-- `Task::Location`. -/
inductive Location where
  | host
  | device
deriving DecidableEq

/-- `Task::Shard`. -/
structure Shard where
  type : TaskType
  location : Location
  block : String
  offset : Nat
  address : Nat
  length : Nat
  owner : Nat
  /-- The callback, known by the task whose waiter it counts down. -/
  done : Option Nat
deriving DecidableEq

/-- `Task`. -/
structure Task where
  id : Nat
  type : TaskType
  location : Location
  shards : List Shard
  number : Nat
  size : Nat
  number_eq : number = shards.length
  /-- The shards of a task are its own, and have no callback before `Split`. -/
  fresh : ∀ s ∈ shards, s.owner = id ∧ s.done = none

namespace Task

/-- The constructor, where `NextId` gives this id. -/
def new (id : Nat) (type : TaskType) (location : Location) : Task where
  id := id
  type := type
  location := location
  shards := []
  number := 0
  size := 0
  number_eq := rfl
  fresh := nofun

variable (t : Task)

/-- `Append`. -/
def append (block : String) (offset address length : Nat) : Task :=
  { t with
    shards := t.shards ++ [⟨t.type, t.location, block, offset, address, length, t.id, none⟩]
    number := t.number + 1
    size := t.size + length
    number_eq := by rw [t.number_eq, List.length_append, List.length_singleton]
    fresh := by
      intro s hs
      rcases List.mem_append.mp hs with hs | hs
      · exact t.fresh s hs
      · rw [List.mem_singleton.mp hs]
        exact ⟨rfl, rfl⟩ }

/-- `std::next` over so many shards and the `splice` up to there: the shards taken and those left. -/
def spliceNext (count : Nat) (shards : List Shard) : Option (List Shard × List Shard) :=
  if count ≤ shards.length then some (shards.take count, shards.drop count) else none

/-- Gives the `back` of a list the callback. -/
def setDone (id : Nat) (out : List Shard) : Option (List Shard) :=
  out.getLast?.map fun s => out.dropLast ++ [{ s with done := some id }]

/-- The loop of `Split` from the `i`-th list on, of which there are `lists` more. -/
def splitLoop (id base rem : Nat) : Nat → Nat → List Shard → Option (List (List Shard))
  | 0, _, _ => some []
  | lists + 1, i, shards => do
    let (out, shards) ← spliceNext (base + if i < rem then 1 else 0) shards
    let out ← setDone id out
    let rest ← splitLoop id base rem lists (i + 1) shards
    some (out :: rest)

/-- `Split`: what the waiter is set to, and the lists. -/
def split (n : Nat) : Option (Nat × List (List Shard)) :=
  let num := min n t.number
  if num = 0 then none
  else do
    let base := t.number / num
    let rem := t.number % num
    let out ← splitLoop t.id base rem num 0 t.shards
    some (num, out)

end Task

/-- `TaskManager` with its queues and the waiters of all tasks. -/
structure TaskManager where
  /-- The ids in `tasks_`. -/
  tasks : List Nat
  /-- `counter_` of the waiter of each task. -/
  waiters : Nat → Nat
  qIndex : Nat
  queues : List (List Shard)
  /-- What the running `Submit` has yet to push; it holds `mutex_` until then. -/
  pushing : List (List Shard)
  /-- The ids of all tasks that were submitted: an id is given out once. -/
  submitted : List Nat

namespace TaskManager

/-- The manager with its queues, before the first task. -/
def start (queues : Nat) : TaskManager where
  tasks := []
  waiters := fun _ => 0
  qIndex := 0
  queues := List.replicate queues []
  pushing := []
  submitted := []

variable (m : TaskManager)

/-- `Submit` up to the pushes. -/
def submit (t : Task) : Option TaskManager :=
  if m.pushing ≠ [] ∨ t.id ∈ m.submitted then none
  -- `emplace` fails.
  else if t.id ∈ m.tasks then some m
  else do
    let (count, shards) ← t.split m.queues.length
    some { m with
      tasks := t.id :: m.tasks
      waiters := Function.update m.waiters t.id count
      pushing := shards
      submitted := t.id :: m.submitted }

/-- `Submit` pushes a list. -/
def push : Option TaskManager :=
  match m.pushing with
  | [] => none
  | shard :: rest =>
    if m.qIndex < m.queues.length then
      some { m with
        qIndex := if m.qIndex + 1 = m.queues.length then 0 else m.qIndex + 1
        queues := m.queues.modify m.qIndex (· ++ shard)
        pushing := rest }
    else none

/-- `Latch::Done` of the waiter that a finished shard calls, if it calls one. -/
def finish (shard : Shard) : Nat → Nat :=
  match shard.done with
  | none => m.waiters
  | some id => Function.update m.waiters id (m.waiters id - 1)

/-- A queue finishes its first shard. -/
def work (q : Nat) : Option TaskManager :=
  match m.queues[q]? with
  | some (shard :: rest) =>
    some { m with waiters := m.finish shard, queues := m.queues.set q rest }
  | _ => none

/-- `Wait` takes the task out of `tasks_`. -/
def wait (id : Nat) : Option TaskManager :=
  if m.pushing ≠ [] then none else some { m with tasks := m.tasks.erase id }

/-- `Check`: whether the task is finished, if it is known. -/
def check (id : Nat) : Option Bool :=
  if id ∈ m.tasks then some (m.waiters id == 0) else none

/-- What can happen. -/
inductive Event where
  | submit (t : Task)
  | push
  | work (q : Nat)
  | wait (id : Nat)

/-- One step. -/
def step : Event → Option TaskManager
  | .submit t => m.submit t
  | .push => m.push
  | .work q => m.work q
  | .wait id => m.wait id

/-- Any number of queues, but at least one. -/
def machine : Machine TaskManager Event where
  init m := ∃ queues, 0 < queues ∧ m = start queues
  step := step

/-- The lists with shards that are not finished. -/
def lists : List (List Shard) := m.queues ++ m.pushing

/-- The shards that are not finished. -/
def pending : List Shard := m.lists.flatten

end TaskManager

end UnifiedCache.Detail
