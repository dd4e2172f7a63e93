import UnifiedCache.Cache.TransBuffer

/-!
# The search of an allocation

`TransBuffer::Alloc` by a thread that nobody interferes with: the only bucket lock that is held is the one
of the caller, and of the node locks the one of the node the search is at. Where the thread asks for that
lock again it waits for itself, and the search goes no further.
-/

namespace UnifiedCache.Cache.TransBuffer

variable (cfg : BufferConfig)

/-- The caller's range ends here: behind it are the reserved nodes. -/
def allocLimit (allowReserved : Bool) : Nat := cfg.nNode - if allowReserved then 0 else cfg.reservedNumber

variable (s : TransBuffer) (blockId : BlockId) (shardIdx iBucket : Nat) (allowReserved : Bool)

/-- `BucketTryLock`, when the caller's bucket is the only one that is locked. -/
def bucketTryLock (oldBucket : Nat) : Bool := oldBucket ≠ iBucket

/-- The node locks that `Remove` and `MoveTo` take while the node is locked. -/
def nestedLocks (iNode : Nat) : List Nat :=
  match (s.metaAt iNode).hash with
  | none => (s.firstAt iBucket).toList
  | some oldBucket =>
    if oldBucket = iBucket then []
    else (s.metaAt iNode).prev.toList ++ (s.metaAt iNode).next.toList ++
      ((s.remove oldBucket iNode).firstAt iBucket).toList

/-- One iteration of `Alloc`. -/
def allocOnceAlone : Option Nat × TransBuffer :=
  let oldBucket := (s.metaAt (s.fetchNode cfg allowReserved).1).hash
  s.allocOnce cfg blockId shardIdx iBucket allowReserved
    (oldBucket.all fun oldBucket => bucketTryLock iBucket oldBucket)

/-- Whether the iteration waits for the node lock it holds. -/
def waitsForItself : Prop :=
  let iNode := (s.fetchNode cfg allowReserved).1
  (s.metaAt iNode).reference = 0 ∧ iNode ∈ s.nestedLocks iBucket iNode

instance : Decidable (s.waitsForItself cfg iBucket allowReserved) := instDecidableAnd

/-- `Alloc` with so many calls of `FetchNode`. -/
def allocAlone : Nat → TransBuffer → Option Nat × TransBuffer
  | 0, s => (none, s)
  | calls + 1, s =>
    if s.waitsForItself cfg iBucket allowReserved then (none, s)
    else
      match s.allocOnceAlone cfg blockId shardIdx iBucket allowReserved with
      | (some iNode, s) => (some iNode, s)
      | (none, s) => allocAlone calls s

/-- The node was free and is taken over for a key, and the other nodes keep what they hold. -/
structure Taken (s s' : TransBuffer) (iNode : Nat) (blockId : BlockId) (shardIdx : Nat) : Prop where
  free : (s.metaAt iNode).reference = 0
  reference : (s'.metaAt iNode).reference = 1
  block : (s'.metaAt iNode).block = blockId
  shard : (s'.metaAt iNode).shard = shardIdx
  ready : (s'.metaAt iNode).ready = false
  others : ∀ j, j ≠ iNode → (s'.metaAt j).block = (s.metaAt j).block ∧
    (s'.metaAt j).shard = (s.metaAt j).shard ∧
    (s'.metaAt j).reference = (s.metaAt j).reference ∧ (s'.metaAt j).ready = (s.metaAt j).ready

end UnifiedCache.Cache.TransBuffer
