import Mathlib.Data.Finset.Card
import UnifiedCache.Infra.TopNHeap
import UnifiedCache.Lib.Machine

/-!
# The space of the nfs store

`SpaceManager`: the processes that use a storage share a counter of the space in use, which
`NewBlock` compares with the capacity. A block is written to an activated file, which `CommitBlock`
makes the archived one or removes. When the space in use reaches a threshold, the recycler of the
process removes the archived files of the first storage backend that are the oldest.

An operation is one step, and so is what the recycler does about one file. `File::Make`, `MkDir`,
`Open`, `Stat`, `Access`, `Truncate` and `Rename` may fail at any time; `Remove` and `RmDir`, whose
errors nobody sees, do not. Directories are left out, and so is what the files contain.
-/

open Lib UnifiedCache.Infra

namespace UnifiedCache.NfsStore

/-- `BlockId`: the 16 bytes of a block's id. -/
structure BlockId where
  front : UInt64
  back : UInt64
deriving DecidableEq, Repr

/-- `DataFilePath`. -/
structure DataFile where
  blockId : BlockId
  activated : Bool
deriving DecidableEq, Repr

/-- The statuses that the operations return. -/
inductive Status where
  | ok
  | outOfMemory
  | osApiError
  | duplicateKey
  | notFound
  | noSpace
deriving DecidableEq, Repr

/-- What `Setup` gets, and what it works out. -/
structure Config where
  blockSize : UInt64
  storageCapacity : UInt64
  tempDumpDirEnable : Bool
  recycleEnable : Bool
  /-- `storageCapacity * recycleThresholdRatio`, in floating-point numbers. -/
  capacityRecycleThreshold : UInt64
  /-- `recycleNum_`, a tenth of the blocks in floating-point numbers. -/
  recycleNum : Nat
  /-- The storage backend of the block is the first one. -/
  firstBackend : BlockId → Bool
  blockSize_ne : blockSize ≠ 0

/-- `BlockInfo` of the recycler. -/
structure BlockInfo where
  path : DataFile
  timestamp : Nat
deriving DecidableEq, Repr

/-- `CmpTimestamp`. -/
def cmpTimestamp (lhs rhs : BlockInfo) : Bool := rhs.timestamp < lhs.timestamp

/-- `SpaceRecycle`: the flag, and the heap of `DoRecycle` while it removes files. -/
structure Recycler where
  recycling : Bool
  earliestHeap : Option (TopNHeap BlockInfo)
deriving DecidableEq, Repr

/-- The storage, and the recyclers of the processes that use it. -/
structure State where
  /-- `Property::capacity`: the space in use. -/
  capacity : UInt64
  files : Finset DataFile
  recyclers : Nat → Recycler

namespace State

/-- A new storage. -/
def start : State := ⟨0, ∅, fun _ => ⟨false, none⟩⟩

variable (s : State)

/-- `IncreaseCapacity`. -/
def increaseCapacity (delta : UInt64) : State := { s with capacity := s.capacity + delta }

/-- `DecreaseCapacity`: the loop ends with the exchange or without one. -/
def decreaseCapacity (delta : UInt64) : State :=
  if delta < s.capacity then { s with capacity := s.capacity - delta } else s

/-- `Trigger` of a process. -/
def trigger (m : Nat) : State :=
  { s with recyclers := Function.update s.recyclers m { s.recyclers m with recycling := true } }

/-- The recycler of a process moves on. -/
def setRecycler (m : Nat) (r : Recycler) : State :=
  { s with recyclers := Function.update s.recyclers m r }

/-- A file is created. -/
def create (file : DataFile) : State := { s with files := insert file s.files }

/-- `Remove`. -/
def remove (file : DataFile) : State := { s with files := s.files.erase file }

/-- `Rename`. -/
def rename (old new : DataFile) : State := { s with files := insert new (s.files.erase old) }

end State

/-- How the file system answers a call of `NewBlock`. -/
structure NewEnv where
  /-- `File::Make`. -/
  make : Bool := true
  mkDir : Status := .ok
  access : Bool := true
  /-- `Open` that creates the file. -/
  create : Bool := true
  /-- `Open` of the file that exists. -/
  reopen : Bool := true
  stat : Bool := true
  /-- The file was not accessed for `MIN_REUSE_BLOCK_AGE`. -/
  stale : Bool := true
  truncate : Bool := true
deriving DecidableEq, Repr

/-- How the file system answers a call of `CommitBlock`. -/
structure CommitEnv where
  mkDir : Status := .ok
  rename : Bool := true
deriving DecidableEq, Repr

variable (cfg : Config)

/-- `CapacityCheck` in process `m`. -/
def capacityCheck (m : Nat) (s : State) : Status × State :=
  if cfg.storageCapacity = 0 then (.ok, s)
  else
    let used := s.capacity
    let s := if cfg.recycleEnable ∧ cfg.capacityRecycleThreshold ≤ used then s.trigger m else s
    if cfg.storageCapacity - cfg.blockSize < used then (.noSpace, s) else (.ok, s)

/-- The end of `NewBlock`: the file is given its size. -/
def truncateBlock (env : NewEnv) (s : State) : Status × State :=
  if env.truncate then (.ok, s.increaseCapacity cfg.blockSize) else (.osApiError, s)

/-- `NewBlock` after its checks. -/
def openBlock (env : NewEnv) (block : BlockId) (s : State) : Status × State :=
  if ¬ env.create then (.osApiError, s)
  else if ⟨block, true⟩ ∈ s.files then
    -- The file exists, and is used again when nobody has accessed it lately.
    if ¬ env.reopen then (.osApiError, s)
    else if ¬ env.stat then (.osApiError, s)
    else if ¬ env.stale then (.duplicateKey, s)
    else truncateBlock cfg env s
  else truncateBlock cfg env (s.create ⟨block, true⟩)

/-- `NewBlock` in process `m`. -/
def newBlock (m : Nat) (env : NewEnv) (block : BlockId) (s : State) : Status × State :=
  let check := capacityCheck cfg m s
  if check.1 ≠ .ok then check
  else if ¬ env.make then (.outOfMemory, check.2)
  else if env.mkDir ≠ .ok ∧ env.mkDir ≠ .duplicateKey then (env.mkDir, check.2)
  else if env.access ∧ ⟨block, false⟩ ∈ s.files then (.duplicateKey, check.2)
  else openBlock cfg env block check.2

/-- `CommitBlock`: the activated file becomes the archived one, or an error stops it. -/
def archiveBlock (env : CommitEnv) (block : BlockId) (s : State) : Status × State :=
  if cfg.tempDumpDirEnable ∧ env.mkDir ≠ .ok ∧ env.mkDir ≠ .duplicateKey then (env.mkDir, s)
  else if ¬ env.rename then (.osApiError, s)
  else if ⟨block, true⟩ ∉ s.files then (.notFound, s)
  else (.ok, s.rename ⟨block, true⟩ ⟨block, false⟩)

/-- `CommitBlock`. -/
def commitBlock (env : CommitEnv) (block : BlockId) (success : Bool) (s : State) :
    Status × State :=
  let archive := if success then archiveBlock cfg env block s else (.ok, s)
  (archive.1, (archive.2.remove ⟨block, true⟩).decreaseCapacity cfg.blockSize)

/-- `DoRecycle`, its loop over the data files: the files that are found, with their timestamps, which
are zero where `Stat` fails. -/
def earliest (found : List BlockInfo) : TopNHeap BlockInfo :=
  (found.filter fun info => info.timestamp ≠ 0).foldl (fun heap info => heap.push cmpTimestamp info)
    (TopNHeap.new cfg.recycleNum)

/-- `DoRecycle`, one turn of its last loop. -/
def recycleOne (m : Nat) (heap : TopNHeap BlockInfo) (s : State) : State :=
  match heap.top with
  | some info =>
    ((s.remove info.path).decreaseCapacity cfg.blockSize).setRecycler m
      ⟨true, heap.pop cmpTimestamp⟩
  | none => s.setRecycler m ⟨false, none⟩

/-- The events. -/
inductive Event where
  | newBlock (m : Nat) (env : NewEnv) (block : BlockId)
  | commitBlock (env : CommitEnv) (block : BlockId) (success : Bool)
  /-- The recycler of a process looks for files; an error of `readdir` may end it early. -/
  | scan (m : Nat) (found : List BlockInfo)
  /-- The recycler of a process removes a file or is done. -/
  | recycle (m : Nat)
deriving DecidableEq, Repr

/-- One event. -/
def step (s : State) : Event → Option State
  | .newBlock m env block => some (newBlock cfg m env block s).2
  | .commitBlock env block success => some (commitBlock cfg env block success s).2
  | .scan m found =>
    if (s.recyclers m).recycling ∧ (s.recyclers m).earliestHeap.isNone ∧
        (found.map BlockInfo.path).Nodup ∧ (∀ info ∈ found, info.path ∈ s.files ∧
          info.path.activated = false ∧ cfg.firstBackend info.path.blockId) then
      some (s.setRecycler m ⟨true, some (earliest cfg found)⟩)
    else none
  | .recycle m => (s.recyclers m).earliestHeap.map fun heap => recycleOne cfg m heap s

/-- The storage under any number of processes. -/
def machine : Machine State Event where
  init s := s = .start
  step := step cfg

/-! ## The books -/

/-- The counter is the space of the block files. -/
def Accounted (s : State) : Prop := s.capacity = cfg.blockSize * UInt64.ofNat s.files.card

/-- The checks of `NewBlock` pass and it opens the file. -/
def Opens (m : Nat) (env : NewEnv) (block : BlockId) (s : State) : Prop :=
  (capacityCheck cfg m s).1 = .ok ∧ env.make = true ∧
    (env.mkDir = .ok ∨ env.mkDir = .duplicateKey) ∧
    ¬(env.access = true ∧ ⟨block, false⟩ ∈ s.files) ∧ env.create = true

/-- The answers with which `NewBlock` leaves the counter right once it opens the file: a new file is
given its size, and a file that exists is not used again. -/
def NewEnv.Counts (env : NewEnv) (block : BlockId) (s : State) : Prop :=
  if ⟨block, true⟩ ∈ s.files then
    ¬(env.reopen = true ∧ env.stat = true ∧ env.stale = true ∧ env.truncate = true)
  else env.truncate = true

/-- `CommitBlock` gets to rename the activated file. -/
def CommitEnv.archives (env : CommitEnv) : Bool :=
  env.rename && (!cfg.tempDumpDirEnable || env.mkDir = .ok || env.mkDir = .duplicateKey)

/-- What keeps the counter right: `NewBlock`, once it opens the file, makes a new one of full size,
and `CommitBlock` and the recycler remove a file exactly when the counter is above one block. -/
def Booked (s : State) : Event → Prop
  | .newBlock m env block => Opens cfg m env block s → env.Counts block s
  | .commitBlock env block success =>
    cfg.blockSize < s.capacity ↔ ⟨block, true⟩ ∈ s.files ∧
      ¬((success && env.archives cfg) = true ∧ ⟨block, false⟩ ∉ s.files)
  | .scan _ _ => True
  | .recycle m => ∀ info ∈ (s.recyclers m).earliestHeap.bind TopNHeap.top,
    (cfg.blockSize < s.capacity ↔ info.path ∈ s.files)

instance (m : Nat) (env : NewEnv) (block : BlockId) (s : State) :
    Decidable (Opens cfg m env block s) :=
  inferInstanceAs (Decidable ((capacityCheck cfg m s).1 = .ok ∧ env.make = true ∧
    (env.mkDir = .ok ∨ env.mkDir = .duplicateKey) ∧
    ¬(env.access = true ∧ ⟨block, false⟩ ∈ s.files) ∧ env.create = true))

instance (env : NewEnv) (block : BlockId) (s : State) : Decidable (env.Counts block s) :=
  inferInstanceAs (Decidable (if ⟨block, true⟩ ∈ s.files then
    ¬(env.reopen = true ∧ env.stat = true ∧ env.stale = true ∧ env.truncate = true)
    else env.truncate = true))

instance (s : State) (e : Event) : Decidable (Booked cfg s e) :=
  match e with
  | .newBlock m env block =>
    inferInstanceAs (Decidable (Opens cfg m env block s → env.Counts block s))
  | .commitBlock env block success =>
    inferInstanceAs (Decidable (cfg.blockSize < s.capacity ↔ ⟨block, true⟩ ∈ s.files ∧
      ¬((success && env.archives cfg) = true ∧ ⟨block, false⟩ ∉ s.files)))
  | .scan _ _ => inferInstanceAs (Decidable True)
  | .recycle m =>
    inferInstanceAs (Decidable (∀ info ∈ (s.recyclers m).earliestHeap.bind TopNHeap.top,
      (cfg.blockSize < s.capacity ↔ info.path ∈ s.files)))

end UnifiedCache.NfsStore
