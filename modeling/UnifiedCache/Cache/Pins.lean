import UnifiedCache.Cache.Store
import UnifiedCache.Cache.Proofs.TransBufferProofs
import Mathlib.Algebra.BigOperators.Fin

/-!
# Who pins which node

Every handle a thread of the store holds pins a node. This module lists the pins of a process, by
program counter, each with the role in which the node is held: the owner that is going to fill it, a
load that waits until the owner has, or neither. `Effect` is what one step can do to the buffer, to
the pins of the process that takes it and to the backend tasks of that process.
-/

open Lib

namespace UnifiedCache.Cache

/-- The key of a shard. -/
abbrev Key := BlockId × Nat

/-- What a handle is held for. -/
inductive Role where
  /-- Nothing that concerns `ready`. -/
  | plain
  /-- A load that goes on to `WaitBackendTaskReady` without a backend task of its own. -/
  | wait
  /-- The owner, on its way to `MarkReady`. -/
  | fill (k : Key)
  /-- The owner, while its backend load runs. -/
  | loading (k : Key) (handle : Nat)
deriving DecidableEq

/-- The role is on its way to `MarkReady`. -/
def Role.fills : Role → Bool
  | .plain | .wait => false
  | .fill _ | .loading _ _ => true

/-- The key a role knows. -/
def Role.key : Role → Option Key
  | .plain | .wait => none
  | .fill k | .loading k _ => some k

/-- A node and the role it is held in. -/
abbrev Pin := Nat × Role

/-! ## The pins of a process -/

/-- The pin of a shard task before the transfer thread has looked at it. -/
def ShardTask.pin (st : ShardTask) : Pin :=
  (st.bufferHandle.pos,
    if st.backendTaskHandle = 0 then .wait else .loading st.shard.key st.backendTaskHandle)

def ShardTask.plain (st : ShardTask) : Pin := (st.bufferHandle.pos, .plain)

def Handle.plain (h : Handle) : Pin := (h.pos, .plain)

/-- The pin of a shard that a dump is going to fill. -/
def fillPin (x : Shard × Handle) : Pin := (x.2.pos, .fill x.1.key)

def DispatchPc.pins : DispatchPc → List Pin
  | .idle | .check _ | .skip _ | .get _ _ => []
  | .ready _ shard _ h | .submit _ shard _ h => [fillPin (shard, h)]
  | .failInsert _ h | .failDone _ h | .failDrop h => [h.plain]
  | .push _ st _ => [st.pin]

def TransferPc.pins : TransferPc → List Pin
  | .idle => []
  | .check st => [st.pin]
  | .waitBackend st => [(st.bufferHandle.pos, .loading st.shard.key st.backendTaskHandle)]
  | .markReady st => [(st.bufferHandle.pos, .fill st.shard.key)]
  | .poll st | .pollFailed st => [(st.bufferHandle.pos, .wait)]
  | .h2d st | .sync st | .clear st _ | .fail st | .done st | .drop st => [st.plain]

def DumpPc.pins : DumpPc → List Pin
  | .idle | .check _ | .waitEvent _ | .insert _ | .done _ => []
  | .get _ _ acc | .sync _ acc => acc.map fillPin
  | .skip _ _ acc h => h.plain :: acc.map fillPin
  | .ready _ shard _ acc h | .d2h _ shard _ acc h => fillPin (shard, h) :: acc.map fillPin
  | .markReady _ acc todo => acc.map fun x => if x ∈ todo then fillPin x else x.2.plain
  | .submit _ acc | .push _ acc _ => acc.map (·.2.plain)
  | .unwind _ handles => handles.map Handle.plain

def DumpCtx.pins (ctx : DumpCtx) : List Pin := ctx.bufferHandles.map Handle.plain

def DumperPc.pins : DumperPc → List Pin
  | .idle => []
  | .wait ctx => ctx.pins
  | .drop handles => handles.map Handle.plain

/-- All pins of a process. -/
def Proc.pins (q : Proc) : Multiset Pin :=
  (q.load.dispatch.pins : Multiset Pin) + (q.load.running.map ShardTask.pin : Multiset Pin) +
    (q.load.transfer.pins : Multiset Pin) + (q.load.holder.map ShardTask.plain : Multiset Pin) +
    (q.dump.dispatch.pins : Multiset Pin) + (q.dump.dumping.flatMap DumpCtx.pins : Multiset Pin) +
    (q.dump.dumper.pins : Multiset Pin)

/-- All pins. -/
def State.pins {n : Nat} (s : State n) : Multiset Pin := ∑ p, (s.procs p).pins

/-! ## What a step is about to do -/

/-- The key of the `Get` the load dispatcher is about to make. -/
def Proc.loadGet (q : Proc) : Action → Option Key
  | .loadDispatcher =>
    match q.load.dispatch with
    | .get _ (shard :: _) => some shard.key
    | _ => none
  | _ => none

/-- The key of the `Get` the dump dispatcher is about to make. -/
def Proc.dumpGet (q : Proc) : Action → Option Key
  | .dumpDispatcher =>
    match q.dump.dispatch with
    | .get _ (shard :: _) _ => some shard.key
    | _ => none
  | _ => none

/-- The transfer thread is about to drop a shard whose backend load it has not waited for, because
the task is in the failure set. -/
def Proc.abandons (q : Proc) : Action → Bool
  | .loadTransfer =>
    match q.load.transfer with
    | .check st => decide (st.taskHandle ∈ q.tasks.failureSet ∧ st.backendTaskHandle ≠ 0)
    | _ => false
  | _ => false

/-- The node about to be marked ready, and the key it was got for. -/
def Proc.marks (q : Proc) : Action → Option (Nat × Key)
  | .loadTransfer =>
    match q.load.transfer with
    | .markReady st => some (st.bufferHandle.pos, st.shard.key)
    | _ => none
  | .dumpDispatcher =>
    match q.dump.dispatch with
    | .markReady _ _ (x :: _) => some (x.2.pos, x.1.key)
    | _ => none
  | _ => none

/-- The shards with a node to fill that the transfer thread has not checked yet: their tasks, and the
nodes. Such a shard is dropped if its task is in the failure set by then. -/
def ShardTask.unchecked (st : ShardTask) : List (Nat × Nat) :=
  if st.backendTaskHandle = 0 then [] else [(st.taskHandle, st.bufferHandle.pos)]

def DispatchPc.unchecked : DispatchPc → List (Nat × Nat)
  | .ready task _ _ h | .submit task _ _ h => [(task.id, h.pos)]
  | .push _ st _ => st.unchecked
  | _ => []

def TransferPc.unchecked : TransferPc → List (Nat × Nat)
  | .check st => st.unchecked
  | _ => []

def Proc.unchecked (q : Proc) : List (Nat × Nat) :=
  q.load.dispatch.unchecked ++ q.load.running.flatMap ShardTask.unchecked ++ q.load.transfer.unchecked

/-- The tasks that are about to enter the failure set. -/
def Proc.failing (q : Proc) : Action → Finset Nat
  -- If the queue is full. No shard has this id yet.
  | .submit _ _ _ => {q.tasks.nextId}
  | .waitTimeout id => {id}
  | .loadDispatcher =>
    match q.load.dispatch with
    | .failInsert task _ => {task.id}
    | _ => ∅
  | .loadTransfer =>
    match q.load.transfer with
    | .fail st => {st.taskHandle}
    | _ => ∅
  | .dumpDispatcher =>
    match q.dump.dispatch with
    | .insert task => {task.id}
    | _ => ∅
  | _ => ∅

/-- The nodes of the unchecked shards of the tasks that are about to enter the failure set. -/
def Proc.dooms (q : Proc) (act : Action) : List Nat :=
  (q.unchecked.filter fun x => x.1 ∈ q.failing act).map Prod.snd

/-- The key of the `Get` the load dispatcher is about to make for a task in the failure set. -/
def Proc.lateGet (q : Proc) : Action → Option Key
  | .loadDispatcher =>
    match q.load.dispatch with
    | .get task (shard :: _) => if task.id ∈ q.tasks.failureSet then some shard.key else none
    | _ => none
  | _ => none

/-- The nodes whose owner is about to fail: nobody marks them ready any more. The failures are those
of `backend_->Load`, of its `Wait`, of the device copy, of its synchronisation, and a task that is in
the failure set by the time its shard is transferred. -/
def Proc.givesUp (cfg : Config) (env : Env) (q : Proc) : Action → List Nat
  | .loadDispatcher =>
    match q.load.dispatch with
    | .submit _ _ _ h => if env.handle = none then [h.pos] else []
    | _ => []
  | .loadTransfer =>
    match q.load.transfer with
    | .check st =>
      if st.taskHandle ∈ q.tasks.failureSet ∧ st.backendTaskHandle ≠ 0 then
        [st.bufferHandle.pos] else []
    | .waitBackend st =>
      match q.waitBackend st.backendTaskHandle with
      | some (false, _) => [st.bufferHandle.pos]
      | _ => []
    | _ => []
  | .dumpDispatcher =>
    match q.dump.dispatch with
    | .d2h _ _ _ acc h => if env.copyOk cfg then [] else h.pos :: acc.map (·.2.pos)
    | .sync _ acc => if env.syncOk cfg then [] else acc.map (·.2.pos)
    | _ => []
  | _ => []

/-! ## What a step does -/

/-- `backend_->Wait` has returned for the handle. -/
def markWaited (handle : Nat) (backend : List BackendTask) : List BackendTask :=
  backend.map fun b => if b.handle = handle then { b with waited := true } else b

/-- The backend is done with the task under the handle. -/
def markFinished (handle : Nat) (ok : Bool) (backend : List BackendTask) : List BackendTask :=
  backend.map fun b => if b.handle = handle then { b with result := some ok } else b

/-- How a step that neither gets nor releases may change the role of a pin: `ready` are the flags
after the step, `givesUp` the nodes given up by it. -/
inductive Retagged (ready : Nat → Bool) (givesUp : List Nat) : Pin → Pin → Prop where
  | same (x : Pin) : Retagged ready givesUp x x
  /-- The node is ready, so nobody needs to fill it any more. -/
  | settled (i : Nat) (k : Key) (r : Role) (hready : ready i = true) (hr : r = .plain ∨ r = .wait) :
      Retagged ready givesUp (i, .fill k) (i, r)
  /-- A load stops waiting. -/
  | waited (i : Nat) : Retagged ready givesUp (i, .wait) (i, .plain)
  /-- The owner fails. -/
  | gaveUp (i : Nat) (k : Key) (h : i ∈ givesUp) : Retagged ready givesUp (i, .fill k) (i, .plain)

/-- What a step of a process can do to the buffer, its pins and its backend tasks. -/
inductive Effect (cfg : Config) (env : Env) (act : Action) (buf : TransBuffer) (q : Proc) :
    TransBuffer → Proc → Prop where
  /-- Roles change, a node may be marked ready. -/
  | retag {buf' : TransBuffer} {q' : Proc}
      (hbuf : buf' = buf ∨ ∃ x, q.marks act = some x ∧ buf' = buf.markReady x.1)
      (hpins : Multiset.Rel (Retagged buf'.ready (q.givesUp cfg env act)) q.pins q'.pins)
      (hbackend : q'.backend = q.backend) : Effect cfg env act buf q buf' q'
  /-- `Get`, still searching. -/
  | search {buf' : TransBuffer} {q' : Proc} (k : Key) (allowReserved : Bool)
      (hget : buf.get cfg.buffer k.1 k.2 allowReserved env.tryLocks = (none, buf'))
      (hpins : q'.pins = q.pins) (hbackend : q'.backend = q.backend) :
      Effect cfg env act buf q buf' q'
  /-- `Get` returns a handle. -/
  | get {buf' : TransBuffer} {q' : Proc} (k : Key) (allowReserved : Bool) (h : Handle) (r : Role)
      (hget : buf.get cfg.buffer k.1 k.2 allowReserved env.tryLocks = (some h, buf'))
      (hrole : h.owner = true ∧ r = .fill k ∨
        h.owner = false ∧ (r = .plain ∨ r = .wait ∧ q.loadGet act = some k))
      (hpins : q'.pins = {(h.pos, r)} + q.pins) (hbackend : q'.backend = q.backend) :
      Effect cfg env act buf q buf' q'
  /-- A handle is released. -/
  | release {q' : Proc} (i : Nat) (hpins : q.pins = {(i, .plain)} + q'.pins)
      (hbackend : q'.backend = q.backend) : Effect cfg env act buf q (buf.release i) q'
  /-- `backend_->Load` succeeds. -/
  | submitLoad {q' : Proc} (k : Key) (i handle : Nat) (rest : Multiset Pin)
      (hpins : q.pins = {(i, .fill k)} + rest) (hpins' : q'.pins = {(i, .loading k handle)} + rest)
      (hfresh : handle ∉ q.backend.map BackendTask.handle)
      (hbackend : q'.backend = q.backend ++ [⟨handle, .load, [(k, i)], none, false⟩]) :
      Effect cfg env act buf q buf q'
  /-- `backend_->Dump` succeeds. -/
  | submitDump {q' : Proc} (handle : Nat) (shards : List (Key × Nat)) (hpins : q'.pins = q.pins)
      (hfresh : handle ∉ q.backend.map BackendTask.handle)
      (hbackend : q'.backend = q.backend ++ [⟨handle, .dump, shards, none, false⟩]) :
      Effect cfg env act buf q buf q'
  /-- The wait for a load returns. -/
  | waitLoad {q' : Proc} (k : Key) (i handle : Nat) (r : Role) (rest : Multiset Pin)
      (hrole : r = .fill k ∨ r = .plain ∧ i ∈ q.givesUp cfg env act)
      (hpins : q.pins = {(i, .loading k handle)} + rest) (hpins' : q'.pins = {(i, r)} + rest)
      (hbackend : q'.backend = markWaited handle q.backend) : Effect cfg env act buf q buf q'
  /-- The wait for a dump returns. -/
  | waitDump {q' : Proc} (handle : Nat) (hpins : q'.pins = q.pins)
      (hbackend : q'.backend = markWaited handle q.backend) : Effect cfg env act buf q buf q'
  /-- The backend finishes a task. -/
  | finish {q' : Proc} (handle : Nat) (ok : Bool) (hact : act = .backendFinish handle ok)
      (hpins : q'.pins = q.pins) (hbackend : q'.backend = markFinished handle ok q.backend) :
      Effect cfg env act buf q buf q'
  /-- A shard is dropped while its backend load may still be running. -/
  | abandon {q' : Proc} (k : Key) (i handle : Nat) (rest : Multiset Pin) (h : q.abandons act = true)
      (hi : i ∈ q.givesUp cfg env act) (hpins : q.pins = {(i, .loading k handle)} + rest)
      (hpins' : q'.pins = {(i, .plain)} + rest) (hbackend : q'.backend = q.backend) :
      Effect cfg env act buf q buf q'

/-! ## Conditions on the steps of a run -/

section Conditions

variable {n : Nat}

/-- The shard that fills the node is not checked yet, and its task is in the failure set. -/
def Proc.Doomed (q : Proc) (i : Nat) : Prop := ∃ x ∈ q.unchecked, x.1 ∈ q.tasks.failureSet ∧ x.2 = i

/-- Some thread holds the node and is on its way to `MarkReady`; its shard is not going to be dropped. -/
def State.Filled (s : State n) (i : Nat) : Prop :=
  (∃ x ∈ s.pins, x.1 = i ∧ x.2.fills = true) ∧ ∀ p, ¬ (s.procs p).Doomed i

/-- No shard is dropped while its backend load may still be running. -/
def NoAbandon (s : State n) (e : Event n) : Prop := (s.procs e.p).abandons e.act = false

/-- An owner only gives a node up, and a task with an unchecked shard only enters the failure set, if
the node is ready or its shard is in the backend; and a task in the failure set only gets a shard that
is in the buffer or in the backend. -/
def GivesUpStored (cfg : Config) (s : State n) (e : Event n) : Prop :=
  (∀ i ∈ (s.procs e.p).givesUp cfg e.env e.act ++ (s.procs e.p).dooms e.act,
    s.buf.ready i = true ∨ ∃ k ∈ s.stored, s.buf.Keyed i k.1 k.2) ∧
  ∀ k, (s.procs e.p).lateGet e.act = some k → k ∈ s.stored ∨ s.buf.exist cfg.buffer k.1 k.2 = true

/-- An owner only gives a node up, and a task with an unchecked shard only enters the failure set, if
the node is ready or no load is going to wait for it; and a load only gets a referenced node that is
ready, or that has an owner that is going to fill it. -/
def GivesUpUnwaited (cfg : Config) (s : State n) (e : Event n) : Prop :=
  (∀ i ∈ (s.procs e.p).givesUp cfg e.env e.act ++ (s.procs e.p).dooms e.act,
    s.buf.ready i = true ∨ (i, .wait) ∉ s.pins) ∧
  (∀ k, (s.procs e.p).loadGet e.act = some k → ∀ i, s.buf.Keyed i k.1 k.2 →
    0 < (s.buf.metaAt i).reference → s.buf.ready i = true ∨ s.Filled i)

/-- The handle the backend returns in this step. -/
def Proc.newHandle (env : Env) (q : Proc) : Action → Option Nat
  | .loadDispatcher =>
    match q.load.dispatch with
    | .submit _ _ _ _ => env.handle
    | _ => none
  | .dumpDispatcher =>
    match q.dump.dispatch with
    | .submit _ _ => env.handle
    | _ => none
  | _ => none

/-- The backend returns strictly increasing handles. -/
def HandlesIncrease (s : State n) (e : Event n) : Prop :=
  ∀ handle ∈ (s.procs e.p).newHandle e.env e.act, ∀ b ∈ (s.procs e.p).backend, b.handle < handle

instance (s : State n) (e : Event n) : Decidable (HandlesIncrease s e) :=
  inferInstanceAs (Decidable (∀ handle ∈ (s.procs e.p).newHandle e.env e.act,
    ∀ b ∈ (s.procs e.p).backend, b.handle < handle))

/-- `DumpOneTask` only returns early when it has no copy under way: a device-to-host copy fails only
as the first one issued since the last synchronisation, and only streams without copies fail to
synchronise. -/
def Proc.DumpFailsSynced (cfg : Config) (env : Env) (q : Proc) : Action → Prop
  | .dumpDispatcher =>
    match q.dump.dispatch with
    | .d2h _ _ _ _ _ => env.copyOk cfg = false → q.dump.copies = [] ∧ env.copyFails = some 0
    | .sync _ _ => ∀ c ∈ q.dump.copies, c.stream ∉ env.failedStreams
    | _ => True
  | _ => True

instance (cfg : Config) (env : Env) (q : Proc) (act : Action) :
    Decidable (q.DumpFailsSynced cfg env act) := by
  unfold Proc.DumpFailsSynced
  split
  · split <;> infer_instance
  · infer_instance

/-- The same of the process that takes the step. -/
def DumpFailsSynced (cfg : Config) (s : State n) (e : Event n) : Prop :=
  (s.procs e.p).DumpFailsSynced cfg e.env e.act

instance (cfg : Config) (s : State n) (e : Event n) : Decidable (DumpFailsSynced cfg s e) :=
  inferInstanceAs (Decidable ((s.procs e.p).DumpFailsSynced cfg e.env e.act))

end Conditions

/-- The nodes the dumps of a process use: the targets of device-to-host copies that are not
synchronised, and the sources of backend dumps that have not been waited for. -/
def Proc.DumpUses (q : Proc) (i : Nat) : Prop :=
  (∃ c ∈ q.dump.copies, c.node = i) ∨
    ∃ b ∈ q.backend, b.type = .dump ∧ b.waited = false ∧ i ∈ b.shards.map Prod.snd

end UnifiedCache.Cache
