import UnifiedCache.Lib.Machine

/-!
# The allocation cursor under races

`FetchNode` of the buffer strategies, as the dispatchers of one store call it: the load dispatcher
with `allowReserved`, the dump dispatcher without. The local strategy advances the cursor `freeHead`
without a lock, so its call is cut into the single reads and writes of `freeHead`; the shared
strategy does the same in one section of the header's lock.

`CheckConfig` and the sizes it accepts are part of the model, with `size_t` as 64-bit words: what the
cursor may reach depends on them.
-/

namespace UnifiedCache.Cache

/-- What `CheckConfig` and the buffer strategies read of the configuration. -/
structure StoreConfig where
  /-- A backend is set. -/
  storeBackend : Bool
  uniqueId : String
  deviceId : Int
  tensorSizes : List UInt64
  shardSize : UInt64
  blockSize : UInt64
  cpuAffinityCores : List Int
  bufferCapacity : UInt64
  loadExclusiveBufferNumber : UInt64
  shareBufferEnable : Bool
  waitingQueueDepth : UInt64
  runningQueueDepth : UInt64
  streamNumber : UInt64

/-- The strategies of `TransBuffer`. -/
inductive BufferStrategy where
  | localBuffer
  | sharedBuffer
  | sharedBufferWatcher
deriving DecidableEq, Repr

namespace StoreConfig

variable (cfg : StoreConfig)

/-- `CheckSizeConfig`: the message of the first check that fails. -/
def checkSizeConfig : Option String :=
  if cfg.tensorSizes.isEmpty then some "invalid tensor size"
  else if cfg.shardSize = 0 then some "invalid shard size"
  else if cfg.blockSize = 0 then some "invalid block size"
  else if cfg.tensorSizes.foldl (· + ·) 0 ≠ cfg.shardSize then
    some ("invalid shard size(" ++ toString cfg.shardSize ++ ")")
  else if cfg.blockSize % cfg.shardSize ≠ 0 then
    some ("invalid block size(" ++ toString cfg.blockSize ++ ")")
  else none

/-- `nNode`, the `bufferNumber` of `CheckConfig`. -/
def nNode : UInt64 := cfg.bufferCapacity / cfg.shardSize

/-- `CheckConfig`: the message of the first check that fails. The sizes are not checked for the
scheduler (`deviceId` -1). -/
def checkConfig : Option String :=
  if !cfg.storeBackend then some "invalid store backend"
  else if cfg.deviceId < -1 then some ("invalid device(" ++ toString cfg.deviceId ++ ")")
  else if cfg.uniqueId.isEmpty then some "invalid unique id"
  else
    match cfg.cpuAffinityCores.find? fun core => core < 0 || 1024 ≤ core with
    | some core => some ("invalid cpu core(" ++ toString core ++ ")")
    | none =>
      if cfg.deviceId = -1 then none
      else
        match cfg.checkSizeConfig with
        | some message => some message
        | none =>
          if cfg.nNode < 1024 || cfg.nNode < cfg.loadExclusiveBufferNumber * 2 then
            some ("too small buffer(" ++ toString cfg.bufferCapacity ++ ") on shard(" ++
              toString cfg.shardSize ++ ")")
          else if cfg.waitingQueueDepth ≤ 1 || cfg.runningQueueDepth ≤ 1 then
            some ("invalid queue depth(" ++ toString cfg.waitingQueueDepth ++ "," ++
              toString cfg.runningQueueDepth ++ ")")
          else if cfg.streamNumber < 1 || 32 < cfg.streamNumber then
            some ("invalid stream number(" ++ toString cfg.streamNumber ++ ")")
          else none

/-- The strategy `TransBuffer::Setup` makes. -/
def strategy : BufferStrategy :=
  if !cfg.shareBufferEnable then .localBuffer
  else if 0 ≤ cfg.deviceId then .sharedBuffer
  else .sharedBufferWatcher

/-- The `limit` of a call of `FetchNode`. -/
def limit (allowReserved : Bool) : UInt64 :=
  cfg.nNode - (if allowReserved then 0 else cfg.loadExclusiveBufferNumber)

end StoreConfig

/-- Where a dispatcher stands in `LocalBufferStrategy::FetchNode`. -/
inductive FetchPc where
  /-- Before `freeHead` is compared with the limit; also between two calls. -/
  | compare
  /-- Before `freeHead` is set to 0. -/
  | reset
  /-- Before `freeHead++` reads. -/
  | read
  /-- Before `freeHead++` writes; the index it has read is what the call returns. -/
  | write (iNode : UInt64)
deriving DecidableEq, Repr

/-- The cursor, the two dispatchers, told apart by `allowReserved`, and what their calls have
returned so far, the last call first. -/
structure Cursor where
  freeHead : UInt64
  pc : Bool → FetchPc
  fetched : List (Bool × UInt64)

namespace Cursor

variable (cfg : StoreConfig)

/-- The cursor `Setup` leaves. -/
def setup : Cursor where
  freeHead := 0
  pc := fun _ => .compare
  fetched := []

/-- A dispatcher goes on to `pc`. -/
def goto (s : Cursor) (allowReserved : Bool) (pc : FetchPc) : Cursor :=
  { s with pc := Function.update s.pc allowReserved pc }

/-- The next access of `LocalBufferStrategy::FetchNode(allowReserved)` to `freeHead`. -/
def access (s : Cursor) (allowReserved : Bool) : Cursor :=
  match s.pc allowReserved with
  | .compare =>
    if cfg.limit allowReserved ≤ s.freeHead then s.goto allowReserved .reset
    else s.goto allowReserved .read
  | .reset => { s with freeHead := 0 }.goto allowReserved .read
  | .read => s.goto allowReserved (.write s.freeHead)
  | .write iNode =>
    { s with freeHead := iNode + 1, fetched := (allowReserved, iNode) :: s.fetched }.goto
      allowReserved .compare

/-- `SharedBufferStrategy::FetchNode(allowReserved)`: the section of the header's lock. -/
def fetchNode (s : Cursor) (allowReserved : Bool) : Cursor :=
  let iNode := if cfg.limit allowReserved ≤ s.freeHead then 0 else s.freeHead
  { s with freeHead := iNode + 1, fetched := (allowReserved, iNode) :: s.fetched }

/-- The next step of a dispatcher. Without a device there are no transfers, and no dispatchers. -/
def step (s : Cursor) (allowReserved : Bool) : Option Cursor :=
  if cfg.deviceId < 0 then none
  else
    match cfg.strategy with
    | .localBuffer => some (s.access cfg allowReserved)
    | .sharedBuffer => some (s.fetchNode cfg allowReserved)
    | .sharedBufferWatcher => none

/-- Every index is a node, and a dump never gets one of the reserved nodes at the end. -/
def InRange (s : Cursor) : Prop :=
  ∀ allowReserved iNode, (allowReserved, iNode) ∈ s.fetched →
    iNode.toNat < cfg.nNode.toNat ∧
      (allowReserved = false → iNode.toNat + cfg.loadExclusiveBufferNumber.toNat < cfg.nNode.toNat)

/-- What keeps the calls in range: some nodes are not reserved, and a dispatcher does not store a
cursor at or behind the limit of the other one while that stands between the check of the cursor and
the read of its index. -/
def Undisturbed (s : Cursor) (allowReserved : Bool) : Prop :=
  cfg.loadExclusiveBufferNumber < cfg.nNode ∧
    ∀ iNode, s.pc allowReserved = .write iNode → s.pc (!allowReserved) = .read →
      iNode + 1 < cfg.limit (!allowReserved)

end Cursor

/-- All runs of the dispatchers. -/
def cursorMachine (cfg : StoreConfig) : Lib.Machine Cursor Bool where
  init s := s = .setup
  step := Cursor.step cfg

/-- A local buffer of 1024 nodes, half of them reserved. -/
def StoreConfig.small : StoreConfig where
  storeBackend := true
  uniqueId := "uc"
  deviceId := 0
  tensorSizes := [1024, 1024]
  shardSize := 2048
  blockSize := 4096
  cpuAffinityCores := []
  bufferCapacity := 2097152
  loadExclusiveBufferNumber := 512
  shareBufferEnable := false
  waitingQueueDepth := 8192
  runningQueueDepth := 524288
  streamNumber := 4

/-- A shared buffer of 1024 nodes, whose number of reserved nodes doubles to 0. -/
def StoreConfig.doubled : StoreConfig :=
  { StoreConfig.small with
    loadExclusiveBufferNumber := 9223372036854775808, shareBufferEnable := true }

end UnifiedCache.Cache
