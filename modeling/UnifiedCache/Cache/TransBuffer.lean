import UnifiedCache.Lib.Machine

/-!
# The buffer of the cache store

`TransBuffer` is a hash table of host buffers. Every node of the table is one buffer together with
its meta data; the nodes whose keys fall into one bucket are linked into a chain through indices.
A node is looked up, or taken over from another key when nobody references it, by `Get`; the
handles `Get` returns pin the node until they are released.

Every function below is the body of the C++ function of the same name. The sections guarded by a
bucket lock run as one step; the answers of `BucketTryLock` are an input of `alloc`, because they
depend on what other threads hold at that moment.

`invalidIndex` is `none`.
-/

namespace UnifiedCache

/-- The 16 bytes of a block hash. -/
abbrev BlockId := BitVec 128

namespace Cache

def nHashTableBucket : Nat := 16411

def goldenSection : UInt64 := 0x9e3779b97f4a7c15

/-- What `TransBuffer::Setup` fixes. `std::hash` is left open. -/
structure BufferConfig where
  /-- The number of nodes. -/
  nNode : Nat
  /-- The number of nodes only loads may allocate. -/
  reservedNumber : Nat
  blockIdHasher : BlockId → UInt64
  shardHasher : Nat → UInt64
  /-- Dumps have nodes to allocate from; `CheckConfig` asks for twice as many nodes. -/
  reserved_lt : reservedNumber < nNode

/-- A buffer of 1024 nodes, half of them reserved for loads. -/
def BufferConfig.small : BufferConfig where
  nNode := 1024
  reservedNumber := 512
  blockIdHasher := fun b => UInt64.ofNat b.toNat
  shardHasher := fun n => UInt64.ofNat n
  reserved_lt := by decide

/-- The bucket of a key. -/
def BufferConfig.hash (cfg : BufferConfig) (blockId : BlockId) (shard : Nat) : Nat :=
  let h1 := cfg.blockIdHasher blockId
  let h2 := cfg.shardHasher shard
  (h1 ^^^ (h2 + goldenSection + (h1 <<< 6) + (h1 >>> 2))).toNat % nHashTableBucket

structure BufferMetaNode where
  block : BlockId
  shard : Nat
  reference : Nat
  /-- The bucket whose chain the node is in. -/
  hash : Option Nat
  prev : Option Nat
  next : Option Nat
  ready : Bool
deriving DecidableEq, Repr

/-- `BufferMetaNode::Init`; the key is left as it is, zeroed memory after `Setup`. -/
def BufferMetaNode.init : BufferMetaNode where
  block := 0
  shard := 0
  reference := 0
  hash := none
  prev := none
  next := none
  ready := false

/-- The header and the meta nodes, which all processes that share the buffer map. -/
structure TransBuffer where
  /-- `FirstAt`: the first node of a bucket's chain. -/
  firstAt : Nat → Option Nat
  /-- The shared allocation cursor. -/
  freeHead : Nat
  /-- `MetaAt`: the meta data of a node. -/
  metaAt : Nat → BufferMetaNode

/-- A handle on a node. -/
structure Handle where
  pos : Nat
  owner : Bool
deriving DecidableEq, Repr

namespace TransBuffer

variable (cfg : BufferConfig)

/-- `TransBuffer::Setup`. -/
def setup : TransBuffer where
  firstAt := fun _ => none
  freeHead := 0
  metaAt := fun _ => .init

/-- Rewrites the meta data of one node. -/
def modify (s : TransBuffer) (iNode : Nat) (f : BufferMetaNode → BufferMetaNode) : TransBuffer :=
  { s with metaAt := fun i => if i = iNode then f (s.metaAt i) else s.metaAt i }

/-- Rewrites the meta data of the node a link points to, if it is not `invalidIndex`. -/
def modifyAt (s : TransBuffer) (link : Option Nat) (f : BufferMetaNode → BufferMetaNode) :
    TransBuffer :=
  match link with
  | some iNode => s.modify iNode f
  | none => s

/-- Rewrites the first node of one bucket. -/
def setFirst (s : TransBuffer) (iBucket : Nat) (head : Option Nat) : TransBuffer :=
  { s with firstAt := fun b => if b = iBucket then head else s.firstAt b }

/-- `BufferStrategy::FetchNode`: the node at the cursor, which wraps at the caller's limit. -/
def fetchNode (allowReserved : Bool) (s : TransBuffer) : Nat × TransBuffer :=
  let limit := cfg.nNode - (if allowReserved then 0 else cfg.reservedNumber)
  let freeHead := if limit ≤ s.freeHead then 0 else s.freeHead
  (freeHead, { s with freeHead := freeHead + 1 })

/-- The walk of `FindAt` and `ExistAt` along a chain, to the first node with the key. -/
def walk (s : TransBuffer) (blockId : BlockId) (shardIdx : Nat) : Nat → Option Nat → Option Nat
  | 0, _ => none
  | _ + 1, none => none
  | fuel + 1, some iNode =>
    if (s.metaAt iNode).block = blockId ∧ (s.metaAt iNode).shard = shardIdx then
      some iNode
    else
      walk s blockId shardIdx fuel (s.metaAt iNode).next

/-- `TransBuffer::ExistAt`. -/
def existAt (s : TransBuffer) (iBucket : Nat) (blockId : BlockId) (shardIdx : Nat) : Bool :=
  (s.walk blockId shardIdx (cfg.nNode + 1) (s.firstAt iBucket)).isSome

/-- `TransBuffer::Exist`. -/
def exist (s : TransBuffer) (blockId : BlockId) (shardIdx : Nat) : Bool :=
  s.existAt cfg (cfg.hash blockId shardIdx) blockId shardIdx

/-- `TransBuffer::Acquire`. -/
def acquire (s : TransBuffer) (pos : Nat) : TransBuffer :=
  s.modify pos fun m => { m with reference := m.reference + 1 }

/-- `TransBuffer::Release`. -/
def release (s : TransBuffer) (pos : Nat) : TransBuffer :=
  s.modify pos fun m => { m with reference := m.reference - 1 }

/-- `TransBuffer::Ready`. -/
def ready (s : TransBuffer) (pos : Nat) : Bool := (s.metaAt pos).ready

/-- `TransBuffer::MarkReady`. -/
def markReady (s : TransBuffer) (pos : Nat) : TransBuffer :=
  s.modify pos fun m => { m with ready := true }

/-- `TransBuffer::FindAt`: the node with the key gets one more reference, and the caller owns it when
it was unreferenced. -/
def findAt (s : TransBuffer) (iBucket : Nat) (blockId : BlockId) (shardIdx : Nat) :
    Option (Nat × Bool × TransBuffer) :=
  match s.walk blockId shardIdx (cfg.nNode + 1) (s.firstAt iBucket) with
  | none => none
  | some iNode => some (iNode, (s.metaAt iNode).reference == 0, s.acquire iNode)

/-- `TransBuffer::MoveTo`: pushes the node in front of a bucket's chain. -/
def moveTo (s : TransBuffer) (iBucket iNode : Nat) : TransBuffer :=
  let head := s.firstAt iBucket
  let s := s.modify iNode fun m => { m with next := head }
  let s := s.modifyAt head fun m => { m with prev := some iNode }
  let s := s.modify iNode fun m => { m with hash := some iBucket }
  s.setFirst iBucket (some iNode)

/-- `TransBuffer::Remove`: takes the node out of a bucket's chain. -/
def remove (s : TransBuffer) (iBucket iNode : Nat) : TransBuffer :=
  let p := (s.metaAt iNode).prev
  let s := s.modifyAt p fun m => { m with next := (s.metaAt iNode).next }
  let n := (s.metaAt iNode).next
  let s := s.modifyAt n fun m => { m with prev := (s.metaAt iNode).prev }
  let s := if s.firstAt iBucket = some iNode then s.setFirst iBucket n else s
  s.modify iNode fun m => { m with prev := none, next := none, hash := none }

/-- The node `Alloc` has settled on gets its new key. -/
def rekey (s : TransBuffer) (iNode : Nat) (blockId : BlockId) (shardIdx : Nat) : TransBuffer :=
  s.modify iNode fun m =>
    { m with reference := m.reference + 1, block := blockId, shard := shardIdx, ready := false }

/-- One iteration of the loop of `TransBuffer::Alloc`; `tryLock` is the answer of
`BucketTryLock(oldBucket)`. -/
def allocOnce (blockId : BlockId) (shardIdx iBucket : Nat) (allowReserved tryLock : Bool)
    (s : TransBuffer) : Option Nat × TransBuffer :=
  let (iNode, s) := s.fetchNode cfg allowReserved
  if 0 < (s.metaAt iNode).reference then
    (none, s)
  else
    match (s.metaAt iNode).hash with
    | none => (some iNode, (s.moveTo iBucket iNode).rekey iNode blockId shardIdx)
    | some oldBucket =>
      if oldBucket = iBucket then
        (some iNode, s.rekey iNode blockId shardIdx)
      else if tryLock then
        (some iNode, ((s.remove oldBucket iNode).moveTo iBucket iNode).rekey iNode blockId shardIdx)
      else
        (none, s)

/-- `TransBuffer::Alloc`: one answer of `BucketTryLock` per iteration. With no answers left the loop
is still searching. -/
def alloc (blockId : BlockId) (shardIdx iBucket : Nat) (allowReserved : Bool) :
    List Bool → TransBuffer → Option Nat × TransBuffer
  | [], s => (none, s)
  | tryLock :: tryLocks, s =>
    match s.allocOnce cfg blockId shardIdx iBucket allowReserved tryLock with
    | (some iNode, s) => (some iNode, s)
    | (none, s) => alloc blockId shardIdx iBucket allowReserved tryLocks s

/-- `TransBuffer::Get`; no handle while `Alloc` is still searching. -/
def get (s : TransBuffer) (blockId : BlockId) (shardIdx : Nat) (allowReserved : Bool)
    (tryLocks : List Bool) : Option Handle × TransBuffer :=
  let iBucket := cfg.hash blockId shardIdx
  match s.findAt cfg iBucket blockId shardIdx with
  | some (iNode, owner, s) => (some ⟨iNode, owner⟩, s)
  | none =>
    match s.alloc cfg blockId shardIdx iBucket allowReserved tryLocks with
    | (some iNode, s) => (some ⟨iNode, true⟩, s)
    | (none, s) => (none, s)

end TransBuffer

/-! ## Clients of the buffer -/

/-- The buffer and the handles its clients hold. -/
structure BufferState where
  buf : TransBuffer
  /-- The live handles, of all threads. -/
  handles : List Handle

/-- What a client may do: call `Get`, copy, release or complete a handle it holds (the `k`-th live
one), or ask for a key. -/
inductive BufferEvent where
  | get (blockId : BlockId) (shardIdx : Nat) (allowReserved : Bool) (tryLocks : List Bool)
  | copy (k : Nat)
  | release (k : Nat)
  | markReady (k : Nat)
  | exist (blockId : BlockId) (shardIdx : Nat)

/-- One locked section of one client. -/
def BufferState.step (cfg : BufferConfig) (s : BufferState) : BufferEvent → Option BufferState
  | .get blockId shardIdx allowReserved tryLocks =>
    match s.buf.get cfg blockId shardIdx allowReserved tryLocks with
    | (some h, buf) => some { buf := buf, handles := h :: s.handles }
    | (none, buf) => some { s with buf := buf }
  | .copy k => s.handles[k]?.map fun h =>
    { buf := s.buf.acquire h.pos, handles := h :: s.handles }
  | .release k => s.handles[k]?.map fun h =>
    { buf := s.buf.release h.pos, handles := s.handles.eraseIdx k }
  | .markReady k => s.handles[k]?.map fun h => { s with buf := s.buf.markReady h.pos }
  | .exist _ _ => some s

/-- All runs of clients on a freshly set up buffer. -/
def bufferMachine (cfg : BufferConfig) : Lib.Machine BufferState BufferEvent where
  init s := s = { buf := .setup, handles := [] }
  step := BufferState.step cfg

end Cache

end UnifiedCache
