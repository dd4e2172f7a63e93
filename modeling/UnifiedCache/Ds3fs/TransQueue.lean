import UnifiedCache.Lib.IoRing
import UnifiedCache.Lib.Machine
import Mathlib.Logic.Function.Basic

/-!
# Transfers over hf3fs

A worker of the queue runs one I/O unit after the other on its `WorkerContext`: a ring for reads, a ring
for writes and one bounce buffer for both. A read goes from the file into the bounce buffer and is then
copied to the unit's address, a write is copied from the address and goes from the bounce buffer into
the file. hf3fs does the submitted I/Os of a ring in order, each at some later time, with an error or a
number of bytes up to the requested one.

Bytes are known by where they come from. The units a worker runs are numbered.
-/

open Lib

namespace UnifiedCache.Ds3fs

/-- The id of a block. -/
abbrev BlockId := Nat

/-- The id of a task. -/
abbrev TaskHandle := Nat

/-- What `CheckConfig` and the queue read of the configuration. -/
structure Config where
  storageBackends : List String
  deviceId : Int
  tensorSize : Nat
  shardSize : Nat
  blockSize : Nat
  streamNumber : Nat

namespace Config

variable (cfg : Config)

/-- `Ds3fsStoreImpl::CheckConfig`. -/
def checkConfig : Bool :=
  if cfg.storageBackends.isEmpty then false
  else if cfg.deviceId < -1 then false
  else if cfg.deviceId = -1 then true
  else if cfg.tensorSize = 0 ∨ cfg.shardSize < cfg.tensorSize ∨ cfg.blockSize < cfg.shardSize ∨
      cfg.shardSize % cfg.tensorSize ≠ 0 ∨ cfg.blockSize % cfg.shardSize ≠ 0 then false
  else if cfg.streamNumber = 0 then false
  else true

/-- `ioSize_`. -/
def ioSize : Nat := cfg.tensorSize

/-- `nShardPerBlock_`. -/
def nShardPerBlock : Nat := cfg.blockSize / cfg.shardSize

end Config

/-- `TransTask::Type`. -/
inductive TransType where
  | load
  | dump
deriving DecidableEq

/-- A unit of a task, with its shard. -/
structure IoUnit where
  task : TaskHandle
  type : TransType
  owner : BlockId
  index : Nat
deriving DecidableEq

/-- `DataFilePath`: the block, and whether it is the activated file. -/
abbrev Path := BlockId × Bool

/-- The file of a unit. -/
def IoUnit.path (u : IoUnit) : Path := (u.owner, u.type = .dump)

/-- Where a byte comes from. -/
inductive Origin where
  /-- Nowhere in particular. -/
  | garbage
  /-- From the address of unit `n`, `k` bytes on. -/
  | addr (n k : Nat)
  /-- From this place of the file, by the read of unit `n`. -/
  | file (n : Nat) (path : Path) (pos : Nat)
deriving DecidableEq

/-- An I/O of unit `n`. -/
structure Io where
  n : Nat
  path : Path
  offset : Nat
  size : Nat
deriving DecidableEq

/-- What a write has done: the bytes it has put into the file from `offset` on. -/
structure Written where
  n : Nat
  path : Path
  offset : Nat
  count : Nat
  data : Nat → Origin

/-- Where the worker is with unit `n`. -/
inductive Pc where
  | idle
  | opening (n : Nat) (u : IoUnit)
  | registering (n : Nat) (u : IoUnit)
  /-- Before the `memcpy` of a write. -/
  | filling (n : Nat) (u : IoUnit)
  | preparing (n : Nat) (u : IoUnit)
  | submitting (n : Nat) (u : IoUnit)
  | waiting (n : Nat) (u : IoUnit)
  /-- Before the `memcpy` of a read. -/
  | copying (n : Nat) (u : IoUnit)
  /-- The I/O is over, with this status. -/
  | finishing (n : Nat) (u : IoUnit) (success : Bool)
deriving DecidableEq

/-- How a unit ended. -/
structure Result where
  n : Nat
  u : IoUnit
  success : Bool
deriving DecidableEq

/-- A worker. -/
structure State where
  iorRead : IoRing Io
  iorWrite : IoRing Io
  /-- `iov`. -/
  bounce : Nat → Origin
  /-- What has been copied to the address of a unit. -/
  addrs : Nat → Nat → Origin
  written : List Written
  failureSet : List TaskHandle
  /-- The calls of `CommitFile`: the number of the unit, its block and the status. -/
  commits : List (Nat × BlockId × Bool)
  results : List Result
  next : Nat
  pc : Pc

/-- A worker that has just been set up. -/
def State.start : State where
  iorRead := .empty
  iorWrite := .empty
  bounce := fun _ => .garbage
  addrs := fun _ _ => .garbage
  written := []
  failureSet := []
  commits := []
  results := []
  next := 0
  pc := .idle

/-- What happens. -/
inductive Event where
  /-- The worker gets a unit. -/
  | take (u : IoUnit)
  /-- Another worker fails a task. -/
  | fail (task : TaskHandle)
  | openFile (success : Bool)
  | registerFd (success : Bool)
  | fill
  | prep (success : Bool)
  | submit (success : Bool)
  | wait (success : Bool)
  | copy
  | finish
  /-- hf3fs does the oldest submitted read, or write. -/
  | complete (type : TransType) (result : Int)

variable (cfg : Config)

/-- The I/O of a unit. -/
def IoUnit.io (u : IoUnit) (n : Nat) : Io := ⟨n, u.path, cfg.shardSize * u.index, cfg.ioSize⟩

namespace State

variable (s : State)

/-- The ring of a unit. -/
def ring (type : TransType) : IoRing Io :=
  match type with
  | .load => s.iorRead
  | .dump => s.iorWrite

/-- Changes the ring of a unit. -/
def setRing (type : TransType) (ring : IoRing Io) : State :=
  match type with
  | .load => { s with iorRead := ring }
  | .dump => { s with iorWrite := ring }

/-- The bytes of an I/O that is done are moved: into the bounce buffer, or into the file. -/
def move (type : TransType) (io : Io) (result : Int) : State :=
  if result < 0 then s
  else
    match type with
    | .load => { s with
        bounce := fun k => if k < result.toNat then .file io.n io.path (io.offset + k) else s.bounce k }
    | .dump => { s with
        written := s.written ++ [⟨io.n, io.path, io.offset, result.toNat, s.bounce⟩] }

/-- The end of `Worker`. -/
def finish (n : Nat) (u : IoUnit) (success : Bool) : State :=
  { s with
    commits :=
      if u.type = .dump ∧ u.index + 1 = cfg.nShardPerBlock then s.commits ++ [(n, u.owner, success)]
      else s.commits
    failureSet := if success then s.failureSet else u.task :: s.failureSet
    results := s.results ++ [⟨n, u, success⟩]
    pc := .idle }

end State

/-- `CheckIoResult`, and where the worker goes on. -/
def checkIoResult (n : Nat) (u : IoUnit) (result : Int) : Pc :=
  if result < 0 then .finishing n u false
  else if u.type = .load then .copying n u
  else .finishing n u true

/-- One step of a worker or of hf3fs. -/
def step (s : State) (e : Event) : Option State :=
  match e, s.pc with
  | .take u, .idle =>
    if s.failureSet.contains u.task then some s
    else some { s with next := s.next + 1, pc := .opening s.next u }
  | .fail task, _ => some { s with failureSet := task :: s.failureSet }
  | .openFile success, .opening n u =>
    some { s with pc := if success then .registering n u else .finishing n u false }
  | .registerFd success, .registering n u =>
    some { s with pc :=
      if success then (if u.type = .dump then .filling n u else .preparing n u)
      else .finishing n u false }
  | .fill, .filling n u =>
    some { s with
      bounce := fun k => if k < cfg.ioSize then .addr n k else s.bounce k
      pc := .preparing n u }
  | .prep success, .preparing n u =>
    if success then
      some { s.setRing u.type ((s.ring u.type).prep (u.io cfg n)) with pc := .submitting n u }
    else some { s with pc := .finishing n u false }
  | .submit success, .submitting n u =>
    if success then some { s.setRing u.type (s.ring u.type).submit with pc := .waiting n u }
    else some { s with pc := .finishing n u false }
  | .wait success, .waiting n u =>
    if success then
      (s.ring u.type).take.map fun (cqe, ring) =>
        { s.setRing u.type ring with pc := checkIoResult n u cqe.2 }
    else some { s with pc := .finishing n u false }
  | .copy, .copying n u =>
    some { s with
      addrs := Function.update s.addrs n fun k => if k < cfg.ioSize then s.bounce k else s.addrs n k
      pc := .finishing n u true }
  | .finish, .finishing n u success => some (s.finish cfg n u success)
  | .complete type result, _ =>
    ((s.ring type).complete result).bind fun (io, ring) =>
      if result ≤ io.size then some ((s.move type io result).setRing type ring) else none
  | _, _ => none

/-- The machine of a worker. -/
def workerMachine : Machine State Event where
  init s := s = .start
  step := step cfg

/-! ## Outcomes -/

/-- The I/O of unit `n` has moved all bytes of the shard between the file, from the place of the shard
on, and the address of the unit. -/
def Moved (s : State) (n : Nat) (u : IoUnit) : Prop :=
  match u.type with
  | .load => ∀ k < cfg.shardSize, s.addrs n k = .file n u.path (cfg.shardSize * u.index + k)
  | .dump => ∃ w ∈ s.written, w.n = n ∧ w.path = u.path ∧ w.offset = cfg.shardSize * u.index ∧
      w.count = cfg.shardSize ∧ ∀ k < cfg.shardSize, w.data k = .addr n k

/-- The outcomes are those of the units' own I/Os. -/
structure Truthful (s : State) : Prop where
  /-- A unit that is treated as successful has moved its bytes. -/
  moved : ∀ r ∈ s.results, r.success = true → Moved cfg s r.n r.u
  /-- The task of any other is in `failureSet`. -/
  failed : ∀ r ∈ s.results, r.success = false → r.u.task ∈ s.failureSet
  /-- A block is committed for a unit that has moved its bytes. -/
  committed : ∀ c ∈ s.commits, c.2.2 = true →
    ∃ r ∈ s.results, r.n = c.1 ∧ r.u.owner = c.2.1 ∧ r.success = true

/-- A read is prepared only when no other one is left in the ring; the bounce buffer is filled for a
write only when no other write is left in its ring and no read is under way; and what is taken as a
completion is an error or counts all bytes. -/
def Undisturbed (s : State) : Event → Prop
  | .prep true => ∀ n u, s.pc = .preparing n u → u.type = .load → s.iorRead.all = []
  | .fill => s.iorWrite.all = [] ∧ s.iorRead.submitted = []
  | .wait true => ∀ n u, s.pc = .waiting n u → ∀ cqe ∈ (s.ring u.type).completed.head?,
      cqe.2 < 0 ∨ cqe.2 = cfg.ioSize
  | _ => True

end UnifiedCache.Ds3fs
