import UnifiedCache.Infra.TopNHeap
import UnifiedCache.Lib.Machine
import UnifiedCache.Posix.TransQueue
import Mathlib.Data.Rat.Floor
import Mathlib.Algebra.Order.Floor.Ring

/-!
# The garbage collector of the posix store

`ShardGarbageCollector`: the collector compares the average number of files per shard with a
threshold, and while it is reached removes the oldest files of every shard, a percentage of them but
no more than a cap per shard and round. When some shard has reached the cap, the next round follows at
once; otherwise the collector looks at the average again.

The files are those of the first storage backend, the only one the collector looks at. The ratios of
the configuration, doubles in the source, are exact rationals. What the threads of the pool do in one
round is one step, as they work on different shards. Files are written only while the collector
sleeps.
-/

open Lib UnifiedCache.Infra

namespace UnifiedCache.Posix

/-- What `CheckConfig` and the collector read of the configuration. -/
structure GcConfig where
  storageBackends : List String
  deviceId : Int
  lookupConcurrency : Nat
  dataDirShardBytes : Nat
  cpuAffinityCores : List Int
  tensorSize : Nat
  shardSize : Nat
  blockSize : Nat
  ioEngine : String
  openConcurrency : Nat
  commitConcurrency : Nat
  dataTransConcurrency : Nat
  posixGcEnable : Bool
  posixCapacityGb : Nat
  posixGcRecyclePercent : ℚ
  posixGcConcurrency : Nat
  posixGcCheckIntervalSec : Nat
  posixGcTriggerThresholdRatio : ℚ
  posixGcMaxRecycleCountPerShard : Nat
  posixGcShardSampleRatio : ℚ

namespace GcConfig

variable (cfg : GcConfig)

/-- `PosixStore::CheckConfig`: the message of the first check that fails. The sizes, the engine and
the collector are not checked for the scheduler (`deviceId` -1). -/
def checkConfig : Option String :=
  if cfg.storageBackends.isEmpty then some "invalid storage backends"
  else if cfg.deviceId < -1 then some "invalid device"
  else if cfg.lookupConcurrency = 0 then some "invalid lookup concurrency"
  else if 5 < cfg.dataDirShardBytes then some "invalid shard bytes"
  else if cfg.cpuAffinityCores.any fun core => core < 0 ∨ 1024 ≤ core then some "invalid cpu core"
  else if cfg.deviceId = -1 then none
  else if cfg.tensorSize = 0 ∨ cfg.shardSize < cfg.tensorSize ∨ cfg.blockSize < cfg.shardSize ∨
      cfg.shardSize % cfg.tensorSize ≠ 0 ∨ cfg.blockSize % cfg.shardSize ≠ 0 then
    some "invalid size"
  else if cfg.ioEngine = "aio" ∧ (cfg.openConcurrency = 0 ∨ cfg.commitConcurrency = 0) then
    some "invalid aio concurrency"
  else if cfg.ioEngine = "psync" ∧ cfg.dataTransConcurrency = 0 then
    some "invalid psync concurrency"
  else if cfg.ioEngine ≠ "aio" ∧ cfg.ioEngine ≠ "psync" then some "invalid io engine"
  else if cfg.posixGcEnable ∧ 0 < cfg.posixCapacityGb then
    if cfg.posixGcRecyclePercent ≤ 0 ∨ 1 < cfg.posixGcRecyclePercent then
      some "invalid gc recycle percent"
    else if cfg.posixGcConcurrency = 0 then some "invalid gc concurrency"
    else if cfg.posixGcCheckIntervalSec = 0 then some "invalid gc check interval"
    else if cfg.posixGcTriggerThresholdRatio ≤ 0 ∨ 1 < cfg.posixGcTriggerThresholdRatio then
      some "invalid gc trigger threshold ratio"
    else if cfg.posixGcMaxRecycleCountPerShard = 0 then
      some "invalid gc max recycle count per shard"
    else if cfg.posixGcShardSampleRatio ≤ 0 ∨ 1 < cfg.posixGcShardSampleRatio then
      some "invalid gc shard sample ratio"
    else none
  else none

/-- The number of `RelativeRoots`, which is the number of shards. -/
def nShard : Nat := if 0 < cfg.dataDirShardBytes then 2 ^ (cfg.dataDirShardBytes * 4) else 1

/-- `maxFileCount_`; the capacity in bytes has 64 bits. -/
def maxFileCount : Nat :=
  cfg.posixCapacityGb * 1024 * 1024 * 1024 % UInt64.size / cfg.blockSize

/-- The threshold of `ShouldTrigger`. -/
def threshold : Nat := ⌊((cfg.maxFileCount / cfg.nShard : Nat) : ℚ) * cfg.posixGcTriggerThresholdRatio⌋₊

/-- `ValidateAndInitCapacity` succeeds: a round can recycle a file. -/
def validate : Bool := 0 < ⌊(cfg.threshold : ℚ) * cfg.posixGcRecyclePercent⌋₊

/-- The store starts with a collector. -/
def Accepted : Prop :=
  cfg.checkConfig = none ∧ cfg.posixGcEnable = true ∧ 0 < cfg.posixCapacityGb ∧ cfg.validate = true

instance : Decidable cfg.Accepted :=
  inferInstanceAs (Decidable (cfg.checkConfig = none ∧ cfg.posixGcEnable = true ∧
    0 < cfg.posixCapacityGb ∧ cfg.validate = true))

end GcConfig

/-- An archived file: the block its name stands for and `st_mtime`. -/
structure FileInfo where
  blockId : BlockId
  mtime : Int
deriving DecidableEq, Repr

/-- `MtimeComparator`. -/
def mtimeComparator (lhs rhs : FileInfo) : Bool := rhs.mtime < lhs.mtime

variable (cfg : GcConfig)

/-- `GetOldestFiles`. `none` where the source pops an empty heap. -/
def getOldestFiles (shard : List FileInfo) : Option (List BlockId) :=
  let heap := shard.foldl (fun heap file => heap.push mtimeComparator file)
    (TopNHeap.new cfg.posixGcMaxRecycleCountPerShard)
  let totalFiles := shard.length
  if totalFiles = 0 then some []
  else
    let recycleNum := ⌊(totalFiles : ℚ) * cfg.posixGcRecyclePercent⌋₊
    if recycleNum = 0 then some []
    else
      let recycleNum := min recycleNum cfg.posixGcMaxRecycleCountPerShard
      if heap.idx.size < recycleNum then none
      else (heap.popN mtimeComparator (heap.idx.size - recycleNum)).map fun heap =>
        (heap.drain mtimeComparator heap.idx.size).map FileInfo.blockId

/-- `RemoveFile`. -/
def removeFile (shard : List FileInfo) (b : BlockId) : List FileInfo :=
  shard.filter fun file => file.blockId ≠ b

/-- `ProcessTask` of type `GC`: the shard without its oldest files, and whether the cap was reached. -/
def processGc (shard : List FileInfo) : Option (List FileInfo × Bool) :=
  (getOldestFiles cfg shard).map fun filesToDelete =>
    (filesToDelete.foldl removeFile shard,
      decide (cfg.posixGcMaxRecycleCountPerShard ≤ filesToDelete.length))

/-- `Execute`: all shards, and `gcLimited`. -/
def execute (shards : List (List FileInfo)) : Option (List (List FileInfo) × Bool) :=
  (shards.mapM (processGc cfg)).map fun done => (done.map Prod.fst, done.any Prod.snd)

/-- `SampleShards` may give these shards: all of them, or as many as the ratio says. -/
def SampleOk (sample : List Nat) : Prop :=
  if cfg.posixGcShardSampleRatio = 1 then sample = List.range cfg.nShard
  else sample.Nodup ∧ (∀ i ∈ sample, i < cfg.nShard) ∧
    sample.length = max 1 ⌊(cfg.nShard : ℚ) * cfg.posixGcShardSampleRatio⌋₊

instance (sample : List Nat) : Decidable (SampleOk cfg sample) :=
  inferInstanceAs (Decidable (ite _ _ _))

/-- The average of `ShouldTrigger`. -/
def avgFilesPerShard (shards : List (List FileInfo)) (sample : List Nat) : Nat :=
  (sample.map fun i => (shards[i]?.getD []).length).sum / sample.length

/-- `ShouldTrigger`. -/
def shouldTrigger (shards : List (List FileInfo)) (sample : List Nat) : Bool :=
  cfg.threshold ≤ avgFilesPerShard shards sample

/-- Where the collector stands in `GCCheckLoop`. -/
inductive GcPc where
  /-- Before the `ShouldTrigger` of a new pass. -/
  | check
  /-- Before `Execute`. -/
  | execute
  /-- Before the `ShouldTrigger` after a round. -/
  | recheck
  /-- In `wait_for`. -/
  | sleep
  | stopped
deriving DecidableEq, Repr

/-- The files of every shard and the collector. -/
structure GcState where
  shards : List (List FileInfo)
  pc : GcPc
  stop : Bool
deriving DecidableEq, Repr

inductive GcEvent where
  /-- The next step of the collector, with what `SampleShards` gives. -/
  | gc (sample : List Nat)
  /-- A block is archived. -/
  | write (i : Nat) (file : FileInfo)
  /-- `StopBackgroundCheck`. -/
  | stop

namespace GcState

/-- The loop head `while (!stop_.load() && trigger)`. -/
def loop (s : GcState) (trigger : Bool) : GcState :=
  { s with pc := if s.stop then .sleep else if trigger then .execute else .sleep }

/-- The next step of the collector. -/
def gcStep (s : GcState) (sample : List Nat) : Option GcState :=
  match s.pc with
  | .check =>
    if s.stop then some { s with pc := .stopped }
    else if SampleOk cfg sample then some (s.loop (shouldTrigger cfg s.shards sample)) else none
  | .execute =>
    match execute cfg s.shards with
    | none => none
    | some (shards, gcLimited) =>
      let s := { s with shards := shards }
      if gcLimited then some (s.loop true) else some { s with pc := .recheck }
  | .recheck =>
    if SampleOk cfg sample then some (s.loop (shouldTrigger cfg s.shards sample)) else none
  | .sleep => some { s with pc := if s.stop then .stopped else .check }
  | .stopped => none

/-- One event. -/
def step (s : GcState) : GcEvent → Option GcState
  | .gc sample => s.gcStep cfg sample
  | .write i file =>
    if s.pc = .sleep ∧ i < s.shards.length then
      some { s with shards := s.shards.set i (file :: removeFile (s.shards[i]?.getD []) file.blockId) }
    else none
  | .stop => some { s with stop := true }

end GcState

/-- The directories of the shards: one for every shard, without two files of one name. -/
def ShardsOk (shards : List (List FileInfo)) : Prop :=
  shards.length = cfg.nShard ∧ ∀ shard ∈ shards, (shard.map FileInfo.blockId).Nodup

/-- The collector on any distribution of files. -/
def gcMachine : Machine GcState GcEvent where
  init s := cfg.Accepted ∧ ShardsOk cfg s.shards ∧ s.pc = .check ∧ s.stop = false
  step := GcState.step cfg

/-- What a round removes from a shard of `n` files. -/
def recycled (n : Nat) : Nat :=
  min ⌊(n : ℚ) * cfg.posixGcRecyclePercent⌋₊ cfg.posixGcMaxRecycleCountPerShard

/-- The entries of the heap of `GetOldestFiles` after `n` files. Its capacity has 32 bits. -/
def heapSize (n : Nat) : Nat := min n (cfg.posixGcMaxRecycleCountPerShard % UInt32.size)

/-- Before the heap is drained no `SiftDown` works on 2^31 or more entries: neither that of a `Push`
into a full heap, nor that of a `Pop` of the surplus. -/
def SiftsSmall (shard : List FileInfo) : Prop :=
  (cfg.posixGcMaxRecycleCountPerShard % UInt32.size < 2 ^ 31 ∨
    ∀ kept ∈ shard.take (cfg.posixGcMaxRecycleCountPerShard % UInt32.size),
      ∀ file ∈ shard.drop (cfg.posixGcMaxRecycleCountPerShard % UInt32.size),
        kept.mtime ≤ file.mtime) ∧
  (heapSize cfg shard.length ≤ 2 ^ 31 ∨ heapSize cfg shard.length = recycled cfg shard.length)

/-- What `GetOldestFiles` is for: as many blocks of the shard as the percentage and the cap say, none
of them newer than one that stays. -/
structure OldestFiles (shard : List FileInfo) (l : List BlockId) : Prop where
  length : l.length = recycled cfg shard.length
  nodup : l.Nodup
  subset : l ⊆ shard.map FileInfo.blockId
  oldest : ∀ file ∈ shard, file.blockId ∈ l →
    ∀ other ∈ shard, other.blockId ∉ l → file.mtime ≤ other.mtime

/-- The number of files in all shards. -/
def totalFiles (shards : List (List FileInfo)) : Nat := (shards.map List.length).sum

/-- Unless the collector is stopped, a round in which some shard reaches the cap leaves the average at
the threshold or above. -/
def WithinTrigger (s : GcState) : GcEvent → Prop
  | .gc _ =>
    s.pc = .execute → s.stop = false →
      (∃ shard ∈ s.shards, cfg.posixGcMaxRecycleCountPerShard ≤ recycled cfg shard.length) →
      cfg.threshold * cfg.nShard + (s.shards.map fun shard => recycled cfg shard.length).sum ≤
        totalFiles s.shards
  | _ => True

instance (s : GcState) : (e : GcEvent) → Decidable (WithinTrigger cfg s e)
  | .gc _ => inferInstanceAs (Decidable (_ → _ → _ → _))
  | .write _ _ => .isTrue trivial
  | .stop => .isTrue trivial

end UnifiedCache.Posix
