import UnifiedCache.Posix.Dump

/-!
# Transfers and their waiters

The tasks of both engines from `Submit` to `Wait`: the units of dump tasks work on files as in the
module on dumping, those of load tasks read the archived files, and every unit counts the latch of
its task down when it is finished. `Wait` returns OK when the latch is down and the task is not in the
failure set.

With the psync engine a unit may also be given up on, by the monitor of its pool or by `Cancel`:
`OnIoUnitTimeout` puts its task into the failure set and counts the latch down, whatever the unit
itself does later. Which units, and when, is the environment's, as are the outcomes of the system
calls and the timeouts of `Wait`.
-/

open Lib

namespace UnifiedCache.Posix

/-- A task: its process and its handle. -/
abbrev TaskRef := Nat × Nat

/-- A unit: its number among the load or the dump units, and its task. -/
structure UnitRef where
  type : TaskType
  id : Nat
  task : TaskRef
deriving DecidableEq, Repr

/-! ## Loading -/

/-- Where the load of a shard stands. -/
inductive LoadPc where
  /-- `LoadWorker`: the failure set. -/
  | check
  | open
  /-- `S2H`: the tensors before the `k`th are read. -/
  | read (k : Nat)
  | insert
  /-- `OnOpenCallback`: the open failed. -/
  | openInsert
  | contains
  /-- `ReadAsync`. -/
  | submit
  | submitInsert
  | inFlight
  /-- `OnIoCallback`. -/
  | ioInsert
  /-- The unit is finished, and whether it succeeded. -/
  | done (ok : Bool)
deriving DecidableEq, Repr

/-- The load of one shard by task `owner` of process `proc`. -/
structure LoadUnit where
  id : Nat
  proc : Nat
  owner : Nat
  shard : Shard
  pc : LoadPc
  /-- The file is open. -/
  opened : Bool
  /-- How many bytes of the shard it has read. -/
  got : Nat
deriving DecidableEq, Repr

def LoadUnit.task (u : LoadUnit) : TaskRef := (u.proc, u.owner)

def DumpUnit.task (u : DumpUnit) : TaskRef := (u.proc, u.owner)

/-- Where a load unit starts. -/
def Engine.startLoad : Engine → LoadPc
  | .psync => .check
  | .aio => .open

/-- The units of a load task, the first of which gets number `id`. -/
def loadUnits (cfg : DumpConfig) (p owner id : Nat) (desc : List Shard) : List LoadUnit :=
  desc.zipIdx.map fun (shard, i) =>
    ⟨id + i, p, owner, shard, (cfg.engine p).startLoad, false, 0⟩

/-- The next step of a load unit, and whether it puts its task into the failure set. -/
def stepLoad (cfg : DumpConfig) (env : DumpEnv) (failureSet : Finset TaskRef) (u : LoadUnit) :
    Option (LoadUnit × Bool) :=
  match u.pc with
  | .check =>
    if u.task ∈ failureSet then some ({ u with pc := .done false }, false)
    else some ({ u with pc := .open }, false)
  | .open =>
    match cfg.engine u.proc with
    | .psync =>
      if env.ok then some ({ u with pc := .read 0, opened := true }, false)
      else some ({ u with pc := .insert }, false)
    | .aio =>
      if env.ok then some ({ u with pc := .contains, opened := true }, false)
      else some ({ u with pc := .openInsert }, false)
  | .read k =>
    if k < u.shard.addrs.length then
      -- `pread` returns less than it was asked for: `Read` fails with what it read in the buffer.
      if cfg.tensorSize ≤ env.bytes then
        some ({ u with pc := .read (k + 1), got := u.got + cfg.tensorSize }, false)
      else
        some ({ u with pc := .insert, got := u.got + env.bytes }, false)
    else some ({ u with pc := .done true }, false)
  | .insert => some ({ u with pc := .done false }, true)
  | .openInsert => some ({ u with pc := .contains }, true)
  | .contains =>
    if u.task ∈ failureSet then some ({ u with pc := .done false }, false)
    else some ({ u with pc := .submit }, false)
  | .submit =>
    if env.ok ∧ u.opened then some ({ u with pc := .inFlight }, false)
    else some ({ u with pc := .submitInsert }, false)
  | .submitInsert => some ({ u with pc := .done false }, true)
  | .inFlight =>
    -- The kernel goes on with the read; any number of bytes without an error is a success.
    let got := u.got + min env.bytes (cfg.ioLength - u.got)
    match env.result with
    | none => some ({ u with got := got }, false)
    | some true => some ({ u with pc := .done true, got := got }, false)
    | some false => some ({ u with pc := .ioInsert, got := got }, false)
  | .ioInsert => some ({ u with pc := .done false }, true)
  | .done _ => none

/-! ## Waiting -/

/-- Where `TaskWrapper::Wait` of a task stands. -/
inductive WaitPc where
  /-- There is no such task. -/
  | unknown
  /-- In `tasks_`. -/
  | registered
  | waitFor
  | contains
  | insert
  | drain
  | remove (status : WaitStatus)
  | returned (status : WaitStatus)
deriving DecidableEq, Repr

/-- Both engines with all their tasks. -/
structure TransState where
  /-- The files, the dump units and the failure sets. -/
  dump : DumpState
  loads : List LoadUnit
  /-- The counter of each task's latch. -/
  latch : TaskRef → Nat
  wait : TaskRef → WaitPc
  /-- The units that have called `Done`. -/
  dones : List UnitRef
  /-- The units that are given up on, before the `Done` of `OnIoUnitTimeout`. -/
  expiring : List UnitRef

namespace TransState

def start : TransState where
  dump := .start
  loads := []
  latch := fun _ => 0
  wait := fun _ => .unknown
  dones := []
  expiring := []

/-- All units. -/
def refs (s : TransState) : List UnitRef :=
  s.dump.units.map (fun u => ⟨.dump, u.id, u.task⟩) ++ s.loads.map fun u => ⟨.load, u.id, u.task⟩

/-- `waiter->Done()`: the counter never goes below zero. -/
def done (s : TransState) (t : TaskRef) : TransState :=
  { s with latch := Function.update s.latch t (s.latch t - 1) }

/-- `failureSet_.Insert`. -/
def fail (s : TransState) (t : TaskRef) : TransState :=
  { s with dump := { s.dump with failureSet := insert t s.dump.failureSet } }

/-- `failureSet_.Remove`. -/
def forget (s : TransState) (t : TaskRef) : TransState :=
  { s with dump := { s.dump with failureSet := s.dump.failureSet.erase t } }

def setWait (s : TransState) (t : TaskRef) (pc : WaitPc) : TransState :=
  { s with wait := Function.update s.wait t pc }

/-- `Submit`. -/
def submit (cfg : DumpConfig) (p : Nat) (type : TaskType) (desc : List Shard) (s : TransState) :
    Option TransState :=
  if ∀ shard ∈ desc, cfg.ShardOk shard then
    let owner := s.dump.nextId p
    let nextId := Function.update s.dump.nextId p (owner + 1)
    let s' := { s with
      latch := Function.update s.latch (p, owner) desc.length
      wait := Function.update s.wait (p, owner) .registered }
    match type with
    | .dump => some { s' with dump := { s.dump with
        units := s.dump.units ++ dumpUnits cfg p owner s.dump.units.length desc
        nextId := nextId } }
    | .load => some { s' with
        dump := { s.dump with nextId := nextId }
        loads := s.loads ++ loadUnits cfg p owner s.loads.length desc }
  else none

/-- The next step of a load unit. -/
def loadStep (cfg : DumpConfig) (id : Nat) (env : DumpEnv) (s : TransState) : Option TransState :=
  s.loads[id]?.bind fun u => (stepLoad cfg env s.dump.failureSet u).map fun (u', failed) =>
    let s' := { s with loads := s.loads.set id u' }
    if failed then s'.fail u.task else s'

/-- The unit is finished. -/
def finished (s : TransState) (r : UnitRef) : Bool :=
  match r.type with
  | .dump => s.dump.units[r.id]?.any fun u => decide (u.task = r.task) &&
      (decide (u.pc = .done true) || decide (u.pc = .done false))
  | .load => s.loads[r.id]?.any fun u => decide (u.task = r.task) &&
      (decide (u.pc = .done true) || decide (u.pc = .done false))

/-- The next step of `Wait`; what `Cancel` does to the units is left to `expire`. -/
def waitStep (t : TaskRef) (timedOut : Bool) (s : TransState) : Option TransState :=
  match s.wait t with
  | .unknown | .returned _ => none
  | .registered => some (s.setWait t .waitFor)
  | .waitFor =>
    if s.latch t = 0 then some (s.setWait t .contains)
    else if timedOut then some (s.setWait t .insert)
    else none
  | .contains =>
    if t ∈ s.dump.failureSet then some (s.setWait t (.remove .error))
    else some (s.setWait t (.returned .ok))
  | .insert => some ((s.fail t).setWait t .drain)
  | .drain => if s.latch t = 0 then some (s.setWait t (.remove .timeout)) else none
  | .remove status => some ((s.forget t).setWait t (.returned status))

end TransState

/-- The events. -/
inductive TransEvent where
  | submit (p : Nat) (type : TaskType) (desc : List Shard)
  /-- A dump unit takes its next step. -/
  | dump (id : Nat) (env : DumpEnv)
  /-- A load unit takes its next step. -/
  | load (id : Nat) (env : DumpEnv)
  /-- A unit that is finished calls `Done`. -/
  | done (r : UnitRef)
  /-- A commit worker takes its next step. -/
  | commit (j : Nat) (env : DumpEnv)
  /-- `OnIoUnitTimeout` of a unit: the failure set. -/
  | expire (r : UnitRef)
  /-- `OnIoUnitTimeout` of a unit: `Done`. -/
  | expired (r : UnitRef)
  /-- The next step of the `Wait` of a task. -/
  | wait (t : TaskRef) (timedOut : Bool)

/-- One event. -/
def transStep (cfg : DumpConfig) (s : TransState) : TransEvent → Option TransState
  | .submit p type desc => s.submit cfg p type desc
  | .dump id env => (s.dump.units[id]?.bind fun u => stepUnit cfg env u s.dump).map fun d =>
    { s with dump := d }
  | .load id env => s.loadStep cfg id env
  | .done r =>
    if s.finished r = true ∧ r ∉ s.dones then some { s.done r.task with dones := r :: s.dones }
    else none
  | .commit j env => (stepCommit env j s.dump).map fun d => { s with dump := d }
  | .expire r =>
    if r ∈ s.refs ∧ cfg.engine r.task.1 = .psync then
      some { s.fail r.task with expiring := r :: s.expiring }
    else none
  | .expired r =>
    if r ∈ s.expiring then some { s.done r.task with expiring := s.expiring.erase r } else none
  | .wait t timedOut => s.waitStep t timedOut

/-- Both engines and their clients. -/
def transMachine (cfg : DumpConfig) : Machine TransState TransEvent where
  init s := s = .start
  step := transStep cfg

/-! ## Read your writes -/

/-- The archived file of the block exists. -/
def DumpState.Archived (s : DumpState) (b : BlockId) : Prop := (s.fs.dir (b, false)).isSome

instance (s : DumpState) (b : BlockId) : Decidable (s.Archived b) :=
  inferInstanceAs (Decidable ((s.fs.dir (b, false)).isSome = true))

/-- The unit of the last shard of a block. -/
def DumpConfig.Last (cfg : DumpConfig) (shard : Shard) : Prop := shard.index + 1 = cfg.nShardPerBlock

instance (cfg : DumpConfig) (shard : Shard) : Decidable (cfg.Last shard) :=
  inferInstanceAs (Decidable (shard.index + 1 = cfg.nShardPerBlock))

/-- A commit does what its task is going to report: the rename of a successful commit fails only when
the block is archived already, and no `Wait` returns OK while a commit of one of the task's blocks is
still in the queue, unless the block is archived already. -/
def CommitsInTime (cfg : DumpConfig) (s : TransState) : TransEvent → Prop
  | .dump id env => ∀ u ∈ s.dump.units[id]?, u.pc = .commit true →
    s.dump.archive u.shard.owner env.ok = none → s.dump.Archived u.shard.owner
  | .commit j env => ∀ task ∈ s.dump.commits[j]?, task.remove = false →
    s.dump.archive task.id env.ok = none → s.dump.Archived task.id
  | .wait t _ => s.wait t = .contains → t ∉ s.dump.failureSet → ∀ u ∈ s.dump.units, u.task = t →
    cfg.Last u.shard → ∀ task ∈ s.dump.commits, task.id = u.shard.owner →
      s.dump.Archived u.shard.owner
  | _ => True

instance (cfg : DumpConfig) (s : TransState) : (e : TransEvent) → Decidable (CommitsInTime cfg s e)
  | .dump id env => inferInstanceAs (Decidable (∀ u ∈ s.dump.units[id]?, u.pc = .commit true →
      s.dump.archive u.shard.owner env.ok = none → s.dump.Archived u.shard.owner))
  | .commit j env => inferInstanceAs (Decidable (∀ task ∈ s.dump.commits[j]?, task.remove = false →
      s.dump.archive task.id env.ok = none → s.dump.Archived task.id))
  | .wait t _ => inferInstanceAs (Decidable (s.wait t = .contains → t ∉ s.dump.failureSet →
      ∀ u ∈ s.dump.units, u.task = t → cfg.Last u.shard → ∀ task ∈ s.dump.commits,
      task.id = u.shard.owner → s.dump.Archived u.shard.owner))
  | .submit _ _ _ | .load _ _ | .done _ | .expire _ | .expired _ => .isTrue trivial

/-! ## What was transferred -/

/-- The place in memory that byte `x` of a shard is taken from or put to: psync has one buffer for each
tensor, aio goes on from the first one. -/
def DumpConfig.address (cfg : DumpConfig) (p : Nat) (shard : Shard) (x : Nat) : Nat :=
  match cfg.engine p with
  | .psync => shard.addrs.getD (x / cfg.tensorSize) 0 + x % cfg.tensorSize
  | .aio => shard.addrs.headD 0 + x

/-- With `len` bytes transferred, the byte at `offset` of the file was moved from or to `addr`. -/
def DumpConfig.Moved (cfg : DumpConfig) (p : Nat) (shard : Shard) (len offset addr : Nat) : Prop :=
  ∃ x < len, offset = shard.index * cfg.shardSize + x ∧ addr = cfg.address p shard x

/-- Exactly the bytes of every tensor were transferred from or to its buffer. -/
def DumpConfig.Transferred (cfg : DumpConfig) (p : Nat) (shard : Shard) (len : Nat) : Prop :=
  ∀ k < cfg.shardSize / cfg.tensorSize, ∀ x < cfg.tensorSize, ∀ addr,
    cfg.Moved p shard len (shard.index * cfg.shardSize + k * cfg.tensorSize + x) addr ↔
      addr = shard.addrs.getD k 0 + x

/-- The buffers of a shard lie one behind the other. -/
def DumpConfig.Adjacent (cfg : DumpConfig) (shard : Shard) : Prop :=
  ∀ k < cfg.shardSize / cfg.tensorSize,
    shard.addrs.getD k 0 = shard.addrs.headD 0 + k * cfg.tensorSize

end UnifiedCache.Posix
