import UnifiedCache.Infra.StorageBackends
import UnifiedCache.Lib.Words
import UnifiedCache.NfsStore.Space
import Mathlib.Data.Finset.SDiff
import Mathlib.Data.Finset.Image

/-!
# Recycling in the nfs store

`DoRecycle`: an iterator walks over the directories of the first storage backend with a stack, a heap
keeps the oldest of the files it gives, and these are removed, with their directories where nothing is
left in them. A file lies in the backend that the hash of its block picks.

The two layouts differ in where activated files lie: `SpaceShardLayout` marks them by their suffix,
`SpaceShardTempLayout` has a directory for them. The hash of the standard library is a parameter, and so
is the order in which a directory gives its entries.
-/

open Lib.Words UnifiedCache.Infra

namespace UnifiedCache.NfsStore

/-! ## The layouts -/

/-- `activatedFileSuffix`. -/
def activatedFileSuffix : Path := "act".toList

/-- `archivedFileSuffix`. -/
def archivedFileSuffix : Path := "dat".toList

/-- `DataFileRoot`. -/
def dataFileRoot : Path := "data".toList

/-- `ClusterFileRoot`. -/
def clusterFileRoot : Path := "cluster".toList

/-- `TempDataFileRoot`. -/
def tempDataFileRoot : Path := "temp".toList

/-- `SpaceShardLayout`, or `SpaceShardTempLayout`. -/
structure Layout where
  temp : Bool
  storageBackends : List Path
deriving DecidableEq, Repr

namespace Layout

/-- `RelativeRoots`. -/
def relativeRoots (temp : Bool) : List Path :=
  [dataFileRoot, clusterFileRoot] ++ if temp then [tempDataFileRoot] else []

/-- `Setup`. -/
def setup (ops : DirOps) (temp : Bool) (storageBackends : List Path) : Option Layout :=
  if storageBackends.isEmpty then none
  else (Backends.setup ops (relativeRoots temp) storageBackends).map fun backends =>
    ⟨temp, backends.storageBackends⟩

variable (layout : Layout) (hasher : BlockId → Nat)

/-- `StorageBackend` of a block. -/
def storageBackend (blockId : BlockId) : Path :=
  layout.storageBackends.getD (hasher blockId % layout.storageBackends.length) []

/-- `StorageBackend` without a block. -/
def front : Path := layout.storageBackends.headD []

/-- The root of a file: data, or temp for the activated files of the layout with it. -/
def fileRoot (activated : Bool) : Path :=
  if layout.temp ∧ activated then tempDataFileRoot else dataFileRoot

/-- The suffix of a file. -/
def fileSuffix (activated : Bool) : Path :=
  if ¬ layout.temp ∧ activated then activatedFileSuffix else archivedFileSuffix

/-- The directory of a block, by the first half of its id. -/
def shardName (blockId : BlockId) : Path := word 16 hexDigit 16 blockId.front.toNat

/-- The name of a file, by the second half of its id. -/
def fileName (blockId : BlockId) (activated : Bool) : Path :=
  word 16 hexDigit 16 blockId.back.toNat ++ '.' :: layout.fileSuffix activated

/-- `DataFileParent`. -/
def dataFileParent (blockId : BlockId) (activated : Bool) : Path :=
  layout.storageBackend hasher blockId ++ layout.fileRoot activated ++ '/' :: shardName blockId

/-- `DataFilePath`. -/
def dataFilePath (blockId : BlockId) (activated : Bool) : Path :=
  layout.dataFileParent hasher blockId activated ++ '/' :: layout.fileName blockId activated

end Layout

/-! ## The iterator -/

/-- `IsActivatedFile`. -/
def isActivatedFile (filePath : Path) : Bool := activatedFileSuffix <:+ filePath

/-- A name that the iterator does not skip. -/
def listed (name : Path) : Bool := !(name.head? = some '.') && !isActivatedFile name

/-- An open directory: the names that `readdir64` has still to give. -/
structure Frame where
  names : List Path
  dir : Path
deriving DecidableEq, Repr

/-- What a turn of the loop of `Next` comes to. -/
inductive Turn where
  | next (stk : List Frame)
  | found (current : Path) (stk : List Frame)
  | stop

section Iterator

-- `opendir` and what `readdir64` gives: `none` when the directory cannot be opened.
variable (readdir : Path → Option (List Path)) (root : Path)

/-- A turn of the loop of `Next`. -/
def turn : List Frame → Turn
  | [] => .stop
  | ⟨[], _⟩ :: stk => .next stk
  | ⟨name :: names, dir⟩ :: stk =>
    if name.head? = some '.' then .next (⟨names, dir⟩ :: stk)
    else if isActivatedFile name then .next (⟨names, dir⟩ :: stk)
    else if dir = root then
      match readdir (dir ++ '/' :: name) with
      | none => .stop
      | some sub => .next (⟨sub, dir ++ '/' :: name⟩ :: ⟨names, dir⟩ :: stk)
    else .found (dir ++ '/' :: name) (⟨names, dir⟩ :: stk)

/-- The names that are left in the root. -/
def rootNames : List Frame → Nat
  | [] => 0
  | frame :: stk => (if frame.dir = root then frame.names.length else 0) + rootNames stk

/-- The names that are left, and the directories that are open. -/
def stackSize : List Frame → Nat
  | [] => 0
  | frame :: stk => frame.names.length + 1 + stackSize stk

/-- What is left to do, compared. -/
def Less (stk' stk : List Frame) : Prop :=
  Prod.Lex (· < ·) (· < ·) (rootNames root stk', stackSize stk') (rootNames root stk, stackSize stk)

variable {readdir root}

theorem turn_cons (name dir : Path) (names : List Path) (stk : List Frame) :
    turn readdir root (⟨name :: names, dir⟩ :: stk) =
      if name.head? = some '.' then .next (⟨names, dir⟩ :: stk)
      else if isActivatedFile name then .next (⟨names, dir⟩ :: stk)
      else if dir = root then
        match readdir (dir ++ '/' :: name) with
        | none => .stop
        | some sub => .next (⟨sub, dir ++ '/' :: name⟩ :: ⟨names, dir⟩ :: stk)
      else .found (dir ++ '/' :: name) (⟨names, dir⟩ :: stk) := rfl

theorem less_tail (name dir : Path) (names : List Path) (stk : List Frame) :
    Less root (⟨names, dir⟩ :: stk) (⟨name :: names, dir⟩ :: stk) := by
  unfold Less
  rw [Prod.lex_def]
  unfold rootNames stackSize
  dsimp only
  rw [List.length_cons]
  split_ifs
  · exact .inl (by omega)
  · exact .inr ⟨rfl, by omega⟩

/-- **A turn that goes on** leaves less to do: an opened directory is not the root. -/
theorem turn_less {stk stk' : List Frame}
    (h : turn readdir root stk = .next stk' ∨ ∃ current, turn readdir root stk = .found current stk') :
    Less root stk' stk := by
  match stk with
  | [] =>
    rcases h with h | ⟨_, h⟩
    · cases h
    · cases h
  | ⟨[], dir⟩ :: stk =>
    rcases h with h | ⟨_, h⟩
    · cases h
      unfold Less
      rw [Prod.lex_def]
      refine .inr ⟨?_, ?_⟩
      · show rootNames root stk' = (if dir = root then 0 else 0) + rootNames root stk'
        rw [ite_self, Nat.zero_add]
      · show stackSize stk' < 0 + 1 + stackSize stk'
        omega
    · cases h
  | ⟨name :: names, dir⟩ :: stk =>
    rw [turn_cons] at h
    split_ifs at h with hdot hactivated hroot
    · rcases h with h | ⟨_, h⟩
      · cases h
        exact less_tail name dir names stk
      · cases h
    · rcases h with h | ⟨_, h⟩
      · cases h
        exact less_tail name dir names stk
      · cases h
    · cases hsub : readdir (dir ++ '/' :: name) with
      | none =>
        rw [hsub] at h
        rcases h with h | ⟨_, h⟩
        · cases h
        · cases h
      | some sub =>
        rw [hsub] at h
        rcases h with h | ⟨_, h⟩
        · cases h
          have hne : dir ++ '/' :: name ≠ root := by
            rw [← hroot]
            intro heq
            have hlength := congrArg List.length heq
            rw [List.length_append, List.length_cons] at hlength
            omega
          unfold Less
          rw [Prod.lex_def]
          refine .inl ?_
          simp only [rootNames, if_neg hne, if_pos hroot, List.length_cons]
          omega
        · cases h
    · rcases h with h | ⟨_, h⟩
      · cases h
      · cases h
        exact less_tail name dir names stk

variable (readdir root)

/-- The paths that `NextDataFilePath` gives one after the other, until it gives none. -/
def enumerate (stk : List Frame) : List Path :=
  match _hturn : turn readdir root stk with
  | .next stk' => enumerate stk'
  | .found current stk' => current :: enumerate stk'
  | .stop => []
termination_by (rootNames root stk, stackSize stk)
decreasing_by
  · exact turn_less (.inl _hturn)
  · exact turn_less (.inr ⟨_, _hturn⟩)

/-- `CreateFilePathIterator`, and the paths that the iterator gives. -/
def dataFilePaths : List Path :=
  match readdir root with
  | none => []
  | some names => enumerate readdir root [⟨names, root⟩]

end Iterator

/-! ## Recycling -/

/-- The regular files of the storages with their times of modification, and the directories. -/
structure Disk where
  files : Finset Path
  dirs : Finset Path
  timestamp : Path → Nat

namespace Disk

variable (disk : Disk) (path : Path)

/-- `GetFileTimestamp`. -/
def fileTimestamp : Nat := if path ∈ disk.files ∪ disk.dirs then disk.timestamp path else 0

/-- `File::RmDir`: a directory in which something is left stays. -/
def rmDir : Disk :=
  if ∀ entry ∈ disk.files ∪ disk.dirs, ¬ (path ++ ['/']) <+: entry then
    { disk with dirs := disk.dirs.erase path }
  else disk

/-- `File::Remove`. -/
def remove : Disk :=
  if path ∈ disk.dirs then disk.rmDir path else { disk with files := disk.files.erase path }

/-- `RemoveBlockFile`. -/
def removeBlockFile : Disk :=
  let disk := disk.remove path
  if '/' ∈ path then disk.rmDir ((path.reverse.dropWhile (· ≠ '/')).tail.reverse) else disk

end Disk

namespace SpaceRecycle

/-- `BlockInfo`. -/
structure BlockInfo where
  path : Path
  timestamp : Nat
deriving DecidableEq, Repr

/-- `CmpTimestamp`. -/
def cmpTimestamp (lhs rhs : BlockInfo) : Bool := rhs.timestamp < lhs.timestamp

/-- The first loop of `DoRecycle`. -/
def earliestHeap (disk : Disk) (paths : List Path) (recycleNum : Nat) : TopNHeap BlockInfo :=
  ((paths.map fun path => (⟨path, disk.fileTimestamp path⟩ : BlockInfo)).filter fun info =>
    info.timestamp ≠ 0).foldl (fun heap info => heap.push cmpTimestamp info) (TopNHeap.new recycleNum)

/-- `DoRecycle`: what is left, and how often `done` was called. -/
def doRecycle (readdir : Path → Option (List Path)) (layout : Layout) (disk : Disk)
    (recycleNum : Nat) : Disk × Nat :=
  let paths := dataFilePaths readdir (layout.front ++ dataFileRoot)
  let heap := earliestHeap disk paths recycleNum
  let removed := heap.drain cmpTimestamp heap.idx.size
  (removed.foldl (fun disk info => disk.removeBlockFile info.path) disk, removed.length)

end SpaceRecycle

/-! ## What recycling is for -/

variable (layout : Layout) (hasher : BlockId → Nat) (archived activated : Finset BlockId) (disk : Disk)
  (readdir : Path → Option (List Path))

/-- The paths of archived files. -/
def archivedPaths : Finset Path := archived.image fun b => layout.dataFilePath hasher b false

/-- These blocks are stored: their files are there, and in the directory of the data of the first backend
there is nothing else but the directories of blocks. -/
structure Stored : Prop where
  archivedFiles : ∀ b ∈ archived, layout.dataFilePath hasher b false ∈ disk.files ∧
    0 < disk.timestamp (layout.dataFilePath hasher b false)
  activatedFiles : ∀ b ∈ activated, layout.dataFilePath hasher b true ∈ disk.files
  parents : ∀ b ∈ archived, layout.dataFileParent hasher b false ∈ disk.dirs
  root : layout.front ++ dataFileRoot ∈ disk.dirs
  /-- The root has directories only. -/
  shards : ∀ shard, '/' ∉ shard → layout.front ++ dataFileRoot ++ '/' :: shard ∉ disk.files
  /-- Its directories have the files of blocks only. -/
  blocks : ∀ shard name, '/' ∉ shard → '/' ∉ name →
    layout.front ++ dataFileRoot ++ '/' :: shard ++ '/' :: name ∉ disk.dirs ∧
    (layout.front ++ dataFileRoot ++ '/' :: shard ++ '/' :: name ∈ disk.files →
      (∃ b ∈ archived, layout.dataFilePath hasher b false =
        layout.front ++ dataFileRoot ++ '/' :: shard ++ '/' :: name) ∨
      ∃ b ∈ activated, layout.dataFilePath hasher b true =
        layout.front ++ dataFileRoot ++ '/' :: shard ++ '/' :: name)
  opens : ∀ dir, readdir dir ≠ none ↔ dir ∈ disk.dirs
  nodup : ∀ dir names, readdir dir = some names → names.Nodup
  slash : ∀ dir names, readdir dir = some names → ∀ name ∈ names, '/' ∉ name
  entries : ∀ dir names, readdir dir = some names → ∀ name, '/' ∉ name →
    (name ∈ names ↔ name = ['.'] ∨ name = ['.', '.'] ∨
      dir ++ '/' :: name ∈ disk.files ∪ disk.dirs)

open SpaceRecycle in
/-- A pass removes the oldest archived files. -/
structure RecycleOk (recycleNum : Nat) : Prop where
  enumerated : (dataFilePaths readdir (layout.front ++ dataFileRoot)).Nodup ∧
    ∀ path, path ∈ dataFilePaths readdir (layout.front ++ dataFileRoot) ↔
      path ∈ archivedPaths layout hasher archived
  notActivated : ∀ b ∈ activated, layout.dataFilePath hasher b true ∉
    dataFilePaths readdir (layout.front ++ dataFileRoot)
  subset : (doRecycle readdir layout disk recycleNum).1.files ⊆ disk.files
  removed : disk.files \ (doRecycle readdir layout disk recycleNum).1.files ⊆
    archivedPaths layout hasher archived
  card : (disk.files \ (doRecycle readdir layout disk recycleNum).1.files).card =
    min recycleNum archived.card
  done : (doRecycle readdir layout disk recycleNum).2 =
    (disk.files \ (doRecycle readdir layout disk recycleNum).1.files).card
  oldest : ∀ path ∈ disk.files \ (doRecycle readdir layout disk recycleNum).1.files,
    ∀ other ∈ archivedPaths layout hasher archived ∩ (doRecycle readdir layout disk recycleNum).1.files,
      disk.timestamp path ≤ disk.timestamp other

end UnifiedCache.NfsStore
