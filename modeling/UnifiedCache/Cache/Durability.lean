import UnifiedCache.Cache.Pins
import UnifiedCache.Cache.Completion

/-!
# Where a dumped shard is

A dump collects the shards it owns, copies them into the buffer and hands them to the backend in one
task; a shard that somebody else owns is skipped. A shard is saved when it is stored, when a dump
task that was submitted to a backend holds it, or while a dump has collected it.
-/

open Lib

namespace UnifiedCache.Cache

/-- The shards a dump has collected and not yet handed to the backend. -/
def DumpPc.collected : DumpPc → List Key
  | .get _ _ acc | .skip _ _ acc _ | .sync _ acc | .markReady _ acc _ | .submit _ acc =>
    acc.map (·.1.key)
  | .ready _ shard _ acc _ | .d2h _ shard _ acc _ => shard.key :: acc.map (·.1.key)
  | .idle | .check _ | .waitEvent _ | .push _ _ _ | .unwind _ _ | .insert _ | .done _ => []

/-- How far a dump has come: the shards of the task that it has passed are saved. -/
def DumpPc.Progress (saved : Key → Prop) (failureSet : Finset Nat) : DumpPc → Prop
  | .get task rest _ | .skip task rest _ _ | .ready task _ rest _ _ | .d2h task _ rest _ _ =>
    ∀ sh ∈ task.desc, sh ∈ rest ∨ saved sh.key
  | .sync task _ | .submit task _ | .push task _ _ => ∀ sh ∈ task.desc, saved sh.key
  | .markReady task acc todo => todo ⊆ acc ∧ ∀ sh ∈ task.desc, saved sh.key
  | .done task => (∀ sh ∈ task.desc, saved sh.key) ∨ task.id ∈ failureSet
  | .idle | .check _ | .waitEvent _ | .unwind _ _ | .insert _ => True

/-- How many steps a dump is from handing its shards to the backend. -/
def DumpPc.remaining : DumpPc → Nat
  | .get _ rest acc => 4 * rest.length + acc.length + 4
  | .skip _ rest acc _ => 4 * rest.length + acc.length + 5
  | .ready _ _ rest acc _ => 4 * rest.length + acc.length + 7
  | .d2h _ _ rest acc _ => 4 * rest.length + acc.length + 6
  | .sync _ acc => acc.length + 3
  | .markReady _ _ todo => todo.length + 2
  | .submit _ _ => 1
  | .idle | .check _ | .waitEvent _ | .push _ _ _ | .unwind _ _ | .insert _ | .done _ => 0

/-- The tasks the dump queue still has to call `Done` for. -/
def DumpQueue.tasks (d : DumpQueue) : List TransTask := d.dispatch.task.toList ++ d.waiting

/-- The ids of the tasks the load queue works on. -/
def DispatchPc.ids : DispatchPc → List Nat
  | .check task | .skip task | .get task _ | .ready task _ _ _ | .submit task _ _ _
  | .failInsert task _ | .failDone task _ => [task.id]
  | .push task st _ => [task.id, st.taskHandle]
  | .idle | .failDrop _ => []

def LoadQueue.ids (l : LoadQueue) : List Nat :=
  l.waiting.map TransTask.id ++ l.dispatch.ids ++ l.running.map ShardTask.taskHandle ++
    l.transfer.shards.map ShardTask.taskHandle

variable {n : Nat}

/-- The shard is part of a dump task that was submitted to a backend. -/
def State.Submitted (s : State n) (k : Key) : Prop :=
  ∃ p, ∃ b ∈ (s.procs p).backend, b.type = .dump ∧ k ∈ b.shards.map Prod.fst

/-- A dump in progress has collected the shard. -/
def State.Collected (s : State n) (k : Key) : Prop :=
  ∃ p, k ∈ (s.procs p).dump.dispatch.collected

/-- The shard is stored, or on its way there. -/
def State.Saved (s : State n) (k : Key) : Prop := k ∈ s.stored ∨ s.Submitted k ∨ s.Collected k

/-- The dump dispatcher of process `p` gets ahead. -/
def DumpAdvances (p : Fin n) (s s' : State n) : Prop :=
  (s'.procs p).dump.dispatch ≠ (s.procs p).dump.dispatch

/-- No device-to-host copy, no synchronisation of it and no submission of a dump to the backend
fails. -/
def Proc.dumpsSucceed (cfg : Config) (env : Env) (q : Proc) : Action → Bool
  | .dumpDispatcher =>
    match q.dump.dispatch with
    | .d2h _ _ _ _ _ => env.copyOk cfg
    | .sync _ _ => env.syncOk cfg
    | .submit _ _ => env.handle.isSome
    | _ => true
  | _ => true

/-- Dumps succeed, and a shard that a dump finds referenced in the buffer is ready there, is stored, or
was collected by a dump that is in progress: nobody is still loading a shard that is not stored. -/
def DumpFindsSaved (cfg : Config) (s : State n) (e : Event n) : Prop :=
  (s.procs e.p).dumpsSucceed cfg e.env e.act = true ∧
  ∀ k, (s.procs e.p).dumpGet e.act = some k → ∀ i, s.buf.Keyed i k.1 k.2 →
    0 < (s.buf.metaAt i).reference → s.buf.ready i = true ∨ k ∈ s.stored ∨ s.Collected k

end UnifiedCache.Cache
