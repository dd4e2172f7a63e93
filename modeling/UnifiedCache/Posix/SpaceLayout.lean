import UnifiedCache.Infra.StorageBackends
import UnifiedCache.Lib.Words
import UnifiedCache.Posix.ShardGc

/-!
# The layout of the posix store

`SpaceLayout`: where the file of a block lies, and how the collector finds the files. The path of a file
is made of the storage backend that the hash of the block picks, of the first digits of its name and of
the name; the collector goes through the directories of the first backend.

A block id is the number its 16 bytes are in base 256. The hash of the standard library is a parameter.
-/

open Lib.Words UnifiedCache.Infra

namespace UnifiedCache.Posix

/-! ## Names -/

/-- `DATA_ROOT`. -/
def dataRoot : Path := "data".toList

/-- `ACTIVATED_FILE_EXTENSION`. -/
def activatedFileExtension : Path := ".tmp".toList

/-- The number of block ids. -/
def blockIds : Nat := 256 ^ 16

/-- The bytes of a block id. -/
def blockBytes (blockId : BlockId) : List UInt8 := word 256 UInt8.ofNat 16 blockId

/-- `DataFileName`. -/
def dataFileName (blockId : BlockId) : Path :=
  (blockBytes blockId).flatMap fun byte => word 16 hexDigit 2 byte.toNat

/-- `GenerateHexStrings`; the digits of a string are set from the last one on. -/
def generateHexStrings (n : Nat) : List Path :=
  if n = 0 then [] else (List.range (1 <<< (n * 4))).map (word 16 hexDigit n)

/-- A digit as `HexToBlockId` reads it. -/
def hexToByte (c : Char) : UInt8 :=
  let digit := UInt8.ofNat c.toNat
  if digit ≤ 57 then digit - 48 else digit - 97 + 10

/-- `HexToBlockId`. What stands behind a name that is too short is read as zeros. -/
def hexToBlockId (hexStr : Path) : BlockId :=
  value 256 UInt8.toNat ((List.range 16).map fun i =>
    let high := hexToByte (hexStr.getD (i * 2) (Char.ofNat 0))
    let low := hexToByte (hexStr.getD (i * 2 + 1) (Char.ofNat 0))
    (high <<< 4) ||| low)

/-! ## The layout -/

/-- `SpaceLayout`, with the directories that `Setup` created or checked. -/
structure SpaceLayout where
  storageBackends : List Path
  shards : List Path
  dataDirShardBytes : Nat
  directories : List Path
deriving DecidableEq, Repr

namespace SpaceLayout

/-- `RelativeRoots`. -/
def relativeRoots (dataDirShardBytes : Nat) : List Path :=
  if 0 < dataDirShardBytes then generateHexStrings dataDirShardBytes else [dataRoot]

/-- `Setup`. -/
def setup (ops : DirOps) (cfg : GcConfig) : Option SpaceLayout := do
  let roots := relativeRoots cfg.dataDirShardBytes
  let backends ← Backends.setup ops roots (cfg.storageBackends.map String.toList)
  some ⟨backends.storageBackends, roots, cfg.dataDirShardBytes, backends.directories⟩

variable (layout : SpaceLayout) (hasher : BlockId → Nat)

/-- `storageBackends_.front()`. -/
def front : Path := layout.storageBackends.headD []

/-- `StorageBackend`. -/
def storageBackend (blockId : BlockId) : Path :=
  if layout.storageBackends.length = 1 then layout.front
  else layout.storageBackends.getD (hasher blockId % layout.storageBackends.length) []

/-- The shard in `DataFilePath`: `FileShardName`, or the data root. -/
def fileShardName (fileName : Path) : Path :=
  if 0 < layout.dataDirShardBytes then fileName.take layout.dataDirShardBytes else dataRoot

/-- The name of a file in its directory. -/
def baseName (blockId : BlockId) (activated : Bool) : Path :=
  dataFileName blockId ++ if activated then activatedFileExtension else []

/-- `DataFilePath`. -/
def dataFilePath (blockId : BlockId) (activated : Bool) : Path :=
  layout.storageBackend hasher blockId ++ layout.fileShardName (dataFileName blockId) ++
    '/' :: baseName blockId activated

/-- `SampleShards`, with the order that `shuffle` gives. -/
def sampleShards (sampleRatio : ℚ) (shuffle : List Path → List Path) : List Path :=
  if sampleRatio = 1 then layout.shards
  else (shuffle layout.shards).take (max 1 ⌊(layout.shards.length : ℚ) * sampleRatio⌋₊)

end SpaceLayout

/-! ## The collector -/

/-- An entry that the collector skips by its name. -/
def DirEntry.skipped (entry : DirEntry) : Bool :=
  entry.name.head? = some '.' || decide (activatedFileExtension <:+: entry.name)

/-- What `opendir` and `readdir` give. -/
abbrev Directories := Path → Option (List DirEntry)

/-- The entries that `CountFilesInShard` counts. -/
def countedEntries (fs : Directories) (shardPath : Path) : List DirEntry :=
  ((fs shardPath).getD []).filter fun entry => !DirEntry.skipped entry

/-- The entries that `ScanFilesInShard` pushes: regular files, if `stat` does not fail. -/
def scannedEntries (fs : Directories) (shardPath : Path) : List DirEntry :=
  (countedEntries fs shardPath).filter fun entry => (entry.stat.map Prod.fst).getD false

/-- `ScanFilesInShard`. -/
def scanFilesInShard (fs : Directories) (shardPath : Path) : List FileInfo :=
  (scannedEntries fs shardPath).map fun entry =>
    ⟨hexToBlockId entry.name, (entry.stat.map Prod.snd).getD 0⟩

namespace SpaceLayout

variable (layout : SpaceLayout) (fs : Directories) (shard : Path)

/-- `CountFilesInShard`. -/
def countFilesInShard : Nat := (countedEntries fs (layout.front ++ shard)).length

/-- `GetOldestFiles`. -/
def getOldestFiles (cfg : GcConfig) : Option (List BlockId) :=
  Posix.getOldestFiles cfg (scanFilesInShard fs (layout.front ++ shard))

/-! ## What the layout is for -/

variable (hasher : BlockId → Nat) (archived activated : Finset BlockId)

/-- These blocks are stored: the regular files of the directories of the layout are theirs. -/
structure Stored : Prop where
  ids : ∀ b ∈ archived ∪ activated, b < blockIds
  /-- The directories of the layout can be opened. -/
  opens : ∀ dir ∈ layout.directories, fs dir ≠ none
  nodup : ∀ dir entries, fs dir = some entries → (entries.map DirEntry.name).Nodup
  slash : ∀ dir entries, fs dir = some entries → ∀ entry ∈ entries, '/' ∉ entry.name
  files : ∀ dir ∈ layout.directories, ∀ entries, fs dir = some entries → ∀ name, '/' ∉ name →
    ((∃ mtime, ⟨name, some (true, mtime)⟩ ∈ entries) ↔
      (∃ b ∈ archived, layout.dataFilePath hasher b false = dir ++ '/' :: name) ∨
      ∃ b ∈ activated, layout.dataFilePath hasher b true = dir ++ '/' :: name)

/-- The paths of entries of the shards of the first backend. -/
def paths (entries : Directories → Path → List DirEntry) (shards : List Path) : List Path :=
  shards.flatMap fun shard =>
    (entries fs (layout.front ++ shard)).map fun entry => layout.front ++ shard ++ '/' :: entry.name

/-- The layout and the collector agree on where files are. -/
structure Agrees (cfg : GcConfig) (shards : List Path) : Prop where
  blockId : ∀ b < blockIds, hexToBlockId (dataFileName b) = b
  injective : ∀ b < blockIds, ∀ b' < blockIds, ∀ activated activated',
    layout.dataFilePath hasher b activated = layout.dataFilePath hasher b' activated' →
    b = b' ∧ activated = activated'
  directory : ∀ b < blockIds, ∃ dir ∈ layout.directories,
    layout.dataFilePath hasher b false = dir ++ '/' :: dataFileName b
  counted : ∀ b ∈ archived,
    (layout.paths fs countedEntries shards).count (layout.dataFilePath hasher b false) = 1
  scanned : ∀ b ∈ archived,
    (layout.paths fs scannedEntries shards).count (layout.dataFilePath hasher b false) = 1
  activated : ∀ b ∈ activated, layout.dataFilePath hasher b true ∉ layout.paths fs countedEntries shards ∧
    layout.dataFilePath hasher b true ∉ layout.paths fs scannedEntries shards
  removed : ∀ shard ∈ shards, ∀ blocks, layout.getOldestFiles fs shard cfg = some blocks →
    ∀ b ∈ blocks, ∃ entry ∈ scannedEntries fs (layout.front ++ shard), hexToBlockId entry.name = b ∧
      layout.dataFilePath hasher b false = layout.front ++ shard ++ '/' :: entry.name

end SpaceLayout

end UnifiedCache.Posix
