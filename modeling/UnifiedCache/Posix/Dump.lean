import UnifiedCache.Posix.TransQueue
import UnifiedCache.Lib.FileSystem

/-!
# Dumping blocks to files

A block is a file of `nShardPerBlock` shards. The units of dump tasks write their shards into the
activated file of the block, `DataFilePath(b, true)`, and the unit of the last shard commits it:
`CommitFile` renames it to `DataFilePath(b, false)`, or removes it after a failure.

Any number of processes dump into one layout, each with the psync or the aio engine. A unit is a
thread of its own here and every step is one system call or one access to a failure set, so that the
steps of the units run in any order. What a call returns, and how many bytes a write writes, is the
environment's. The waiting side of the tasks shows up in the failure sets only: a wait that times out
puts its task there, and one that returns takes it out.
-/

open Lib

namespace UnifiedCache.Posix

/-- `config.ioEngine`. -/
inductive Engine where
  | psync
  | aio
deriving DecidableEq, Repr

/-- The layout, the engine of each process, and what is in the processes' memory while they dump. -/
structure DumpConfig where
  tensorSize : Nat
  shardSize : Nat
  blockSize : Nat
  engine : Nat → Engine
  mem : Nat → Nat → UInt8
  /-- What `CheckConfig` asks of the sizes. -/
  tensor_pos : tensorSize ≠ 0
  tensor_le : tensorSize ≤ shardSize
  shard_le : shardSize ≤ blockSize
  tensor_dvd : shardSize % tensorSize = 0
  shard_dvd : blockSize % shardSize = 0

namespace DumpConfig

/-- `blockSize / shardSize`. -/
def nShardPerBlock (cfg : DumpConfig) : Nat := cfg.blockSize / cfg.shardSize

/-- The length of an aio request: `Io::length` has 32 bits. -/
def ioLength (cfg : DumpConfig) : Nat := cfg.shardSize % UInt32.size

/-- Blocks of two shards of two bytes, one tensor each, and memory that holds the addresses. The
first process uses psync, the others aio. -/
def small : DumpConfig where
  tensorSize := 2
  shardSize := 2
  blockSize := 4
  engine := fun p => if p = 0 then .psync else .aio
  mem := fun _ addr => UInt8.ofNat addr
  tensor_pos := by decide
  tensor_le := by decide
  shard_le := by decide
  tensor_dvd := by decide
  shard_dvd := by decide

/-- A shard of a block, with a buffer for every tensor of it. -/
def ShardOk (cfg : DumpConfig) (shard : Shard) : Prop :=
  shard.index < cfg.nShardPerBlock ∧ shard.addrs.length * cfg.tensorSize = cfg.shardSize

instance (cfg : DumpConfig) (shard : Shard) : Decidable (cfg.ShardOk shard) :=
  inferInstanceAs (Decidable (_ ∧ _))

end DumpConfig

/-- `DataFilePath(block, activated)`. -/
abbrev DataFile := BlockId × Bool

/-! ## Units -/

/-- Where the dump of a shard stands. -/
inductive DumpPc where
  /-- `DumpWorker`: the failure set. -/
  | check
  | open
  /-- `H2S`: the tensors before the `k`th are written. -/
  | write (k : Nat)
  /-- `H2S` returns and closes the file. -/
  | close (ok : Bool)
  /-- `CommitFile` of the last shard. -/
  | commit (ok : Bool)
  | remove (ok : Bool)
  | insert
  /-- `OnOpenCallback`: the open failed. -/
  | openInsert
  | contains
  /-- `WriteAsync`. -/
  | submit
  | submitInsert
  /-- `handleFailure`. -/
  | failClose
  | failCommit
  | inFlight
  /-- `OnIoCallback`. -/
  | ioInsert
  | ioClose (ok : Bool)
  | ioCommit (ok : Bool)
  /-- The unit is finished, and whether it succeeded. -/
  | done (ok : Bool)
deriving DecidableEq, Repr

/-- The file, if one was opened, has been closed. -/
def DumpPc.closed : DumpPc → Bool
  | .commit _ | .remove _ | .insert | .failCommit | .ioCommit _ | .done _ => true
  | .check | .open | .write _ | .close _ | .openInsert | .contains | .submit | .submitInsert
  | .failClose | .inFlight | .ioInsert | .ioClose _ => false

/-- The transfer has been successful: `H2S` returned OK, or the completion carried no error. -/
def DumpPc.succeeded : DumpPc → Bool
  | .close ok | .commit ok | .remove ok | .ioClose ok | .ioCommit ok | .done ok => ok
  | .check | .open | .write _ | .insert | .openInsert | .contains | .submit | .submitInsert
  | .failClose | .failCommit | .inFlight | .ioInsert => false

/-- The dump of one shard by task `owner` of process `proc`. -/
structure DumpUnit where
  id : Nat
  proc : Nat
  owner : Nat
  shard : Shard
  pc : DumpPc
  /-- The file it has opened. -/
  file : Option Nat
  /-- How many bytes of the shard it has written. -/
  written : Nat
  /-- Record: the units that had closed their files when this one opened its. -/
  before : List Nat
deriving DecidableEq, Repr

/-- The bytes a unit writes: psync takes them from one buffer for each tensor, aio from the first
buffer on. -/
def DumpConfig.payload (cfg : DumpConfig) (u : DumpUnit) (x : Nat) : UInt8 :=
  match cfg.engine u.proc with
  | .psync =>
    cfg.mem u.proc (u.shard.addrs.getD (x / cfg.tensorSize) 0 + x % cfg.tensorSize)
  | .aio => cfg.mem u.proc (u.shard.addrs.headD 0 + x)

/-- `BlockOperator::CommitTask`, and whether its rename has failed or is not to be tried. -/
structure CommitTask where
  id : BlockId
  success : Bool
  remove : Bool
deriving DecidableEq, Repr

/-- The files and the units of all processes. -/
structure DumpState where
  fs : FileSystem DataFile
  units : List DumpUnit
  /-- `commitQueue_` and the tasks the commit workers have taken from it. -/
  commits : List CommitTask
  /-- The failure sets of the processes. -/
  failureSet : Finset (Nat × Nat)
  nextId : Nat → Nat

namespace DumpState

/-- An empty layout. -/
def start : DumpState where
  fs := .empty
  units := []
  commits := []
  failureSet := ∅
  nextId := fun _ => 1

/-- Replaces a unit. -/
def setUnit (s : DumpState) (u : DumpUnit) : DumpState := { s with units := s.units.set u.id u }

/-- `failureSet_.Insert`. -/
def fail (s : DumpState) (u : DumpUnit) : DumpState :=
  { s with failureSet := insert (u.proc, u.owner) s.failureSet }

/-- Opens the activated file of the unit's block. -/
def openFile (s : DumpState) (u : DumpUnit) (pc : DumpPc) : DumpState :=
  let (n, fs) := s.fs.openCreate (u.shard.owner, true)
  { s with fs := fs }.setUnit { u with
    pc := pc
    file := some n
    before := (s.units.filter fun v : DumpUnit => v.pc.closed).map DumpUnit.id }

/-- Writes the next `len` bytes of the unit's shard, taken from `src`. -/
def writeFile (s : DumpState) (cfg : DumpConfig) (u : DumpUnit) (n len : Nat) (src : Nat → UInt8)
    (pc : DumpPc) : DumpState :=
  { s with fs := s.fs.pwrite n (u.shard.index * cfg.shardSize + u.written) len src }.setUnit
    { u with pc := pc, written := u.written + len }

/-- `rename` of `CommitFile`, `none` when it fails. -/
def archive (s : DumpState) (b : BlockId) (ok : Bool) : Option DumpState :=
  if ok then (s.fs.rename (b, true) (b, false)).map fun fs => { s with fs := fs } else none

/-- `Remove` of `CommitFile`. -/
def removeActivated (s : DumpState) (b : BlockId) (ok : Bool) : DumpState :=
  if ok then { s with fs := s.fs.remove (b, true) } else s

/-- `CommitBlock` of the aio engine. -/
def commitBlock (s : DumpState) (b : BlockId) (success : Bool) : DumpState :=
  { s with commits := s.commits ++ [⟨b, success, !success⟩] }

end DumpState

/-! ## Steps -/

/-- What the environment answers to a unit or a commit worker. -/
structure DumpEnv where
  /-- The call succeeds. -/
  ok : Bool := true
  /-- How many bytes a write writes. -/
  bytes : Nat := 0
  /-- The result of an asynchronous write, once it is complete. -/
  result : Option Bool := none

/-- The next step of a unit. -/
def stepUnit (cfg : DumpConfig) (env : DumpEnv) (u : DumpUnit) (s : DumpState) :
    Option DumpState :=
  let last := u.shard.index + 1 = cfg.nShardPerBlock
  match u.pc with
  | .check =>
    if (u.proc, u.owner) ∈ s.failureSet then some (s.setUnit { u with pc := .done false })
    else some (s.setUnit { u with pc := .open })
  | .open =>
    match cfg.engine u.proc with
    | .psync =>
      if env.ok then some (s.openFile u (.write 0))
      else some (s.setUnit { u with pc := .close false })
    | .aio =>
      if env.ok then some (s.openFile u .contains)
      else some (s.setUnit { u with pc := .openInsert })
  | .write k =>
    match u.shard.addrs[k]?, u.file with
    | some addr, some n =>
      -- `pwrite` returns less than it was asked for: `Write` fails with what it wrote in the file.
      if cfg.tensorSize ≤ env.bytes then
        some (s.writeFile cfg u n cfg.tensorSize (fun x => cfg.mem u.proc (addr + x))
          (.write (k + 1)))
      else
        some (s.writeFile cfg u n env.bytes (fun x => cfg.mem u.proc (addr + x)) (.close false))
    | none, _ => some (s.setUnit { u with pc := .close true })
    | _, none => none
  | .close ok =>
    if last then some (s.setUnit { u with pc := .commit ok })
    else if ok then some (s.setUnit { u with pc := .done true })
    else some (s.setUnit { u with pc := .insert })
  | .commit ok =>
    if ok then
      match s.archive u.shard.owner env.ok with
      | some s' => some (s'.setUnit { u with pc := .done true })
      | none => some (s.setUnit { u with pc := .remove true })
    else some (s.setUnit { u with pc := .remove false })
  | .remove ok =>
    let s' := s.removeActivated u.shard.owner env.ok
    if ok then some (s'.setUnit { u with pc := .done true })
    else some (s'.setUnit { u with pc := .insert })
  | .insert => some ((s.fail u).setUnit { u with pc := .done false })
  | .openInsert => some ((s.fail u).setUnit { u with pc := .contains })
  | .contains =>
    if (u.proc, u.owner) ∈ s.failureSet then some (s.setUnit { u with pc := .failClose })
    else some (s.setUnit { u with pc := .submit })
  | .submit =>
    if env.ok ∧ u.file.isSome then some (s.setUnit { u with pc := .inFlight })
    else some (s.setUnit { u with pc := .submitInsert })
  | .submitInsert => some ((s.fail u).setUnit { u with pc := .failClose })
  | .failClose =>
    if last then some (s.setUnit { u with pc := .failCommit })
    else some (s.setUnit { u with pc := .done false })
  | .failCommit =>
    some ((s.commitBlock u.shard.owner false).setUnit { u with pc := .done false })
  | .inFlight =>
    match u.file with
    | none => none
    | some n =>
      -- The kernel goes on with the write; any number of bytes without an error is a success.
      let len := min env.bytes (cfg.ioLength - u.written)
      let src := fun x => cfg.mem u.proc (u.shard.addrs.headD 0 + u.written + x)
      match env.result with
      | none => some (s.writeFile cfg u n len src .inFlight)
      | some true => some (s.writeFile cfg u n len src (.ioClose true))
      | some false => some (s.writeFile cfg u n len src .ioInsert)
  | .ioInsert => some ((s.fail u).setUnit { u with pc := .ioClose false })
  | .ioClose ok =>
    if last then some (s.setUnit { u with pc := .ioCommit ok })
    else some (s.setUnit { u with pc := .done ok })
  | .ioCommit ok =>
    some ((s.commitBlock u.shard.owner (decide ((u.proc, u.owner) ∉ s.failureSet))).setUnit
      { u with pc := .done ok })
  | .done _ => none

/-- The next step of the commit worker that has taken the `j`th task. -/
def stepCommit (env : DumpEnv) (j : Nat) (s : DumpState) : Option DumpState :=
  match s.commits[j]? with
  | none => none
  | some task =>
    let s' := { s with commits := s.commits.eraseIdx j }
    if task.remove then some (s'.removeActivated task.id env.ok)
    else
      match s'.archive task.id env.ok with
      | some s'' => some s''
      | none => some { s with commits := s.commits.set j { task with remove := true } }

/-- Where a unit starts. -/
def Engine.start : Engine → DumpPc
  | .psync => .check
  | .aio => .open

/-- The units of a dump task, the first of which gets number `id`. -/
def dumpUnits (cfg : DumpConfig) (p owner id : Nat) (desc : List Shard) : List DumpUnit :=
  desc.zipIdx.map fun (shard, i) =>
    ⟨id + i, p, owner, shard, (cfg.engine p).start, none, 0, []⟩

/-- The events. -/
inductive DumpEvent where
  /-- A process submits a dump task. -/
  | submit (p : Nat) (desc : List Shard)
  /-- A unit takes its next step. -/
  | unit (id : Nat) (env : DumpEnv)
  /-- A commit worker takes its next step. -/
  | commit (j : Nat) (env : DumpEnv)
  /-- A wait times out, or a monitor gives up on a unit of the task. -/
  | timeout (p owner : Nat)
  /-- A wait returns and forgets the failure of the task. -/
  | forget (p owner : Nat)

/-- One event. -/
def dumpStep (cfg : DumpConfig) (s : DumpState) : DumpEvent → Option DumpState
  | .submit p desc =>
    if ∀ shard ∈ desc, cfg.ShardOk shard then
      some { s with
        units := s.units ++ dumpUnits cfg p (s.nextId p) s.units.length desc
        nextId := Function.update s.nextId p (s.nextId p + 1) }
    else none
  | .unit id env => s.units[id]?.bind fun u => stepUnit cfg env u s
  | .commit j env => stepCommit env j s
  | .timeout p owner => some { s with failureSet := insert (p, owner) s.failureSet }
  | .forget p owner => some { s with failureSet := s.failureSet.erase (p, owner) }

/-- Dumps into one layout. -/
def dumpMachine (cfg : DumpConfig) : Machine DumpState DumpEvent where
  init s := s = .start
  step := dumpStep cfg

/-! ## Complete files -/

/-- A unit has written its whole shard, and successfully. -/
def DumpUnit.Complete (cfg : DumpConfig) (u : DumpUnit) : Prop :=
  u.pc.succeeded = true ∧ u.written = cfg.shardSize

instance (cfg : DumpConfig) (u : DumpUnit) : Decidable (u.Complete cfg) :=
  inferInstanceAs (Decidable (_ ∧ _))

/-- Shard `i` of file `n` holds the bytes of a unit. -/
def Holds (cfg : DumpConfig) (s : DumpState) (n i : Nat) (u : DumpUnit) : Prop :=
  ∀ x < cfg.shardSize, s.fs.files n (i * cfg.shardSize + x) = some (cfg.payload u x)

/-- Two units write the same bytes. -/
def SameData (cfg : DumpConfig) (u v : DumpUnit) : Prop :=
  ∀ x < cfg.shardSize, cfg.payload u x = cfg.payload v x

instance (cfg : DumpConfig) (u v : DumpUnit) : Decidable (SameData cfg u v) :=
  inferInstanceAs (Decidable (∀ x < _, _))

/-- Every other unit that opened the same file for the same shard had closed it when this one opened
it, or writes the same bytes. -/
def Prevails (cfg : DumpConfig) (s : DumpState) (u : DumpUnit) : Prop :=
  ∀ v ∈ s.units, v.file = u.file → v.shard.index = u.shard.index →
    v.id = u.id ∨ v.id ∈ u.before ∨ SameData cfg v u

instance (cfg : DumpConfig) (s : DumpState) (u : DumpUnit) : Decidable (Prevails cfg s u) :=
  inferInstanceAs (Decidable (∀ v ∈ s.units, v.file = u.file →
    v.shard.index = u.shard.index → v.id = u.id ∨ v.id ∈ u.before ∨ SameData cfg v u))

/-- Every shard of the activated file of the block has been written completely by a unit that
prevails. -/
def ActivatedComplete (cfg : DumpConfig) (s : DumpState) (b : BlockId) : Prop :=
  ∀ i < cfg.nShardPerBlock, ∃ u ∈ s.units, u.Complete cfg ∧ u.shard.index = i ∧
    u.file = s.fs.dir (b, true) ∧ Prevails cfg s u

instance (cfg : DumpConfig) (s : DumpState) (b : BlockId) : Decidable (ActivatedComplete cfg s b) :=
  inferInstanceAs (Decidable (∀ i < cfg.nShardPerBlock, ∃ u ∈ s.units, u.Complete cfg ∧
    u.shard.index = i ∧ u.file = s.fs.dir (b, true) ∧ Prevails cfg s u))

/-- The block whose activated file this event renames. -/
def renames (s : DumpState) : DumpEvent → Option BlockId
  | .unit id env => s.units[id]?.bind fun u =>
    if u.pc = .commit true ∧ env.ok ∧ (s.fs.dir (u.shard.owner, true)).isSome then
      some u.shard.owner
    else none
  | .commit j env => s.commits[j]?.bind fun task =>
    if ¬task.remove ∧ env.ok ∧ (s.fs.dir (task.id, true)).isSome then some task.id else none
  | .submit _ _ | .timeout _ _ | .forget _ _ => none

/-- A file is renamed only when all its shards are complete. -/
def CommitsComplete (cfg : DumpConfig) (s : DumpState) (e : DumpEvent) : Prop :=
  ∀ b ∈ renames s e, ActivatedComplete cfg s b

instance (cfg : DumpConfig) (s : DumpState) (e : DumpEvent) :
    Decidable (CommitsComplete cfg s e) :=
  inferInstanceAs (Decidable (∀ b ∈ renames s e, _))

end UnifiedCache.Posix
