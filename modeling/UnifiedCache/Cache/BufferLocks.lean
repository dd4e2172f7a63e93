import UnifiedCache.Cache.Pins
import UnifiedCache.Lib.Locks
import Mathlib.Logic.Function.Basic

/-!
# The locks of the buffer

The functions of `TransBuffer` once more, now one lock operation at a time: every bucket has a mutex,
every node a spin lock, and a thread is somewhere between two of its lock operations. A step of a
thread is one lock, try-lock or unlock, or the code between two of them. `BucketTryLock` fails
when the bucket is held; `BucketLock` and `NodeLock` have no step while the lock is held, be it by
the caller itself.

The strategies share this code. `FetchNode` runs as one step; the shared strategy has a lock of the
header for it, which nobody waits in.
-/

open Lib

namespace UnifiedCache.Cache.BufferLocks

/-- A bucket's mutex or a node's spin lock. -/
inductive Lock where
  | bucket (iBucket : Nat)
  | node (iNode : Nat)
deriving DecidableEq, Repr

/-- Who walks a chain: `FindAt` for `Get`, or `ExistAt` for `Exist`. -/
inductive Caller where
  | get (allowReserved : Bool)
  | exist
deriving DecidableEq, Repr

/-- The functions that access one node by its position. -/
inductive PosOp where
  | acquire
  | release
  | ready
  | markReady
deriving DecidableEq, Repr

/-- What a call returns. -/
inductive Answer where
  | handle (h : Handle)
  | exist (found : Bool)
  | ready (ready : Bool)
  | void
deriving DecidableEq, Repr

/-- A call of one of the public functions. -/
inductive Call where
  | get (k : Key) (allowReserved : Bool)
  | exist (k : Key)
  | pos (op : PosOp) (pos : Nat)
deriving DecidableEq, Repr

/-- Where a thread is: the lock operation or the piece of code it runs next, with its local
variables. -/
inductive Pc where
  /-- Outside, with the last answer. -/
  | out (answer : Option Answer)
  /-- `BucketLock(iBucket)` of `Get` and `Exist`. -/
  | bucketLock (k : Key) (c : Caller)
  /-- `FirstAt(iBucket)`. -/
  | first (k : Key) (c : Caller)
  /-- `NodeLock(iNode)` of the walk. -/
  | walkLock (k : Key) (c : Caller) (iNode : Nat)
  /-- The comparison of the keys. -/
  | compare (k : Key) (c : Caller) (iNode : Nat)
  /-- `NodeUnlock(iNode)` after a match. -/
  | hitUnlock (k : Key) (iNode : Nat) (answer : Answer)
  /-- `NodeUnlock(iNode)` before the next node. -/
  | missUnlock (k : Key) (c : Caller) (iNode : Nat) (next : Option Nat)
  /-- `BucketUnlock(iBucket)` and the return. -/
  | bucketUnlock (k : Key) (answer : Answer)
  /-- `FetchNode` of `Alloc`. -/
  | fetchNode (k : Key) (allowReserved : Bool)
  /-- `NodeLock(iNode)` of the candidate. -/
  | allocLock (k : Key) (allowReserved : Bool) (iNode : Nat)
  /-- The tests of `reference` and `hash`. -/
  | inspect (k : Key) (allowReserved : Bool) (iNode : Nat)
  /-- `NodeUnlock(iNode)` and `continue`. -/
  | retryUnlock (k : Key) (allowReserved : Bool) (iNode : Nat)
  /-- `BucketTryLock(oldBucket)`. -/
  | tryLock (k : Key) (allowReserved : Bool) (iNode oldBucket : Nat)
  /-- `Remove`: `p = meta->prev`. -/
  | removePrev (k : Key) (iNode oldBucket : Nat)
  /-- `NodeLock(p)`. -/
  | prevLock (k : Key) (iNode oldBucket p : Nat)
  /-- `prev->next = meta->next`. -/
  | prevWrite (k : Key) (iNode oldBucket p : Nat)
  /-- `NodeUnlock(p)`. -/
  | prevUnlock (k : Key) (iNode oldBucket p : Nat)
  /-- `n = meta->next`. -/
  | removeNext (k : Key) (iNode oldBucket : Nat)
  /-- `NodeLock(n)` of `Remove`. -/
  | nextLock (k : Key) (iNode oldBucket n : Nat)
  /-- `next->prev = meta->prev`. -/
  | nextWrite (k : Key) (iNode oldBucket n : Nat)
  /-- `NodeUnlock(n)` of `Remove`. -/
  | nextUnlock (k : Key) (iNode oldBucket n : Nat)
  /-- The end of `Remove`: the head of the chain and the node's own links. -/
  | removeEnd (k : Key) (iNode oldBucket : Nat) (n : Option Nat)
  /-- `BucketUnlock(oldBucket)`. -/
  | oldUnlock (k : Key) (iNode oldBucket : Nat)
  /-- `MoveTo`: `meta->next = head`. -/
  | moveTo (k : Key) (iNode : Nat)
  /-- `NodeLock(n)` of `MoveTo`. -/
  | headLock (k : Key) (iNode n : Nat)
  /-- `next->prev = iNode`. -/
  | headWrite (k : Key) (iNode n : Nat)
  /-- `NodeUnlock(n)` of `MoveTo`. -/
  | headUnlock (k : Key) (iNode n : Nat)
  /-- The end of `MoveTo`: `meta->hash = iBucket; head = iNode`. -/
  | moveEnd (k : Key) (iNode : Nat)
  /-- The new key and the reference. -/
  | rekey (k : Key) (iNode : Nat)
  /-- `NodeUnlock(iNode)` and the return of `Alloc`. -/
  | allocUnlock (k : Key) (iNode : Nat)
  /-- `NodeLock(pos)` of `Acquire`, `Release`, `Ready` and `MarkReady`. -/
  | posLock (op : PosOp) (pos : Nat)
  /-- Their access. -/
  | posAccess (op : PosOp) (pos : Nat)
  /-- Their `NodeUnlock(pos)`. -/
  | posUnlock (op : PosOp) (pos : Nat) (answer : Answer)
deriving DecidableEq, Repr

/-- The first operation of a call. -/
def Call.start : Call → Pc
  | .get k allowReserved => .bucketLock k (.get allowReserved)
  | .exist k => .bucketLock k .exist
  | .pos op iNode => .posLock op iNode

/-- The loop head of `FindAt` and `ExistAt`. At the end of the chain `Get` goes on to `Alloc`. -/
def walkAt (k : Key) (c : Caller) : Option Nat → Pc
  | some iNode => .walkLock k c iNode
  | none =>
    match c with
    | .get allowReserved => .fetchNode k allowReserved
    | .exist => .bucketUnlock k (.exist false)

/-- The access of `Acquire`, `Release`, `Ready` and `MarkReady`. -/
def PosOp.access (s : TransBuffer) (pos : Nat) : PosOp → TransBuffer × Answer
  | .acquire => (s.acquire pos, .void)
  | .release => (s.release pos, .void)
  | .ready => (s, .ready (s.ready pos))
  | .markReady => (s.markReady pos, .void)

/-- The buffer, who holds which lock, and where the threads are. -/
structure State (τ : Type*) where
  buf : TransBuffer
  owner : Lock → Option τ
  pc : τ → Pc

namespace State

variable {τ : Type*} [DecidableEq τ]

/-- Code without a lock operation: the buffer after it and where the thread goes on. -/
def code (s : State τ) (t : τ) (buf : TransBuffer) (pc : Pc) : State τ :=
  { s with buf := buf, pc := Function.update s.pc t pc }

/-- A lock operation, which waits while the lock is held. -/
def lock (s : State τ) (t : τ) (l : Lock) (pc : Pc) : Option (State τ) :=
  if s.owner l = none then
    some { s with owner := Function.update s.owner l (some t), pc := Function.update s.pc t pc }
  else
    none

/-- An unlock operation. -/
def unlock (s : State τ) (t : τ) (l : Lock) (pc : Pc) : State τ :=
  { s with owner := Function.update s.owner l none, pc := Function.update s.pc t pc }

end State

/-! ## One step of a thread -/

section Step

variable {τ : Type*} [DecidableEq τ]

/-- What the threads do: call a function, or take the next step of the one they are in. -/
inductive Event (τ : Type*) where
  | call (t : τ) (c : Call)
  | step (t : τ)
deriving DecidableEq

variable (cfg : BufferConfig) (bucketOf : Key → Nat)

/-- The code between two lock operations: the buffer it leaves and where the thread goes on; `none`
where a lock operation is next. -/
def Pc.code (s : TransBuffer) : Pc → Option (TransBuffer × Pc)
  | .first k c => some (s, walkAt k c (s.firstAt (bucketOf k)))
  | .compare k c iNode =>
    if (s.metaAt iNode).block = k.1 ∧ (s.metaAt iNode).shard = k.2 then
      match c with
      | .get _ =>
        some (s.acquire iNode,
          .hitUnlock k iNode (.handle ⟨iNode, (s.metaAt iNode).reference == 0⟩))
      | .exist => some (s, .hitUnlock k iNode (.exist true))
    else
      some (s, .missUnlock k c iNode (s.metaAt iNode).next)
  | .fetchNode k allowReserved =>
    some ((s.fetchNode cfg allowReserved).2, .allocLock k allowReserved
      (s.fetchNode cfg allowReserved).1)
  | .inspect k allowReserved iNode =>
    if 0 < (s.metaAt iNode).reference then
      some (s, .retryUnlock k allowReserved iNode)
    else
      match (s.metaAt iNode).hash with
      | none => some (s, .moveTo k iNode)
      | some oldBucket =>
        if oldBucket = bucketOf k then
          some (s, .rekey k iNode)
        else
          some (s, .tryLock k allowReserved iNode oldBucket)
  | .removePrev k iNode oldBucket =>
    match (s.metaAt iNode).prev with
    | some p => some (s, .prevLock k iNode oldBucket p)
    | none => some (s, .removeNext k iNode oldBucket)
  | .prevWrite k iNode oldBucket p =>
    some (s.modify p fun m => { m with next := (s.metaAt iNode).next },
      .prevUnlock k iNode oldBucket p)
  | .removeNext k iNode oldBucket =>
    match (s.metaAt iNode).next with
    | some n => some (s, .nextLock k iNode oldBucket n)
    | none => some (s, .removeEnd k iNode oldBucket none)
  | .nextWrite k iNode oldBucket n =>
    some (s.modify n fun m => { m with prev := (s.metaAt iNode).prev },
      .nextUnlock k iNode oldBucket n)
  | .removeEnd k iNode oldBucket n =>
    let s := if s.firstAt oldBucket = some iNode then s.setFirst oldBucket n else s
    some (s.modify iNode fun m => { m with prev := none, next := none, hash := none },
      .oldUnlock k iNode oldBucket)
  | .moveTo k iNode =>
    let head := s.firstAt (bucketOf k)
    some (s.modify iNode fun m => { m with next := head },
      match head with
      | some n => .headLock k iNode n
      | none => .moveEnd k iNode)
  | .headWrite k iNode n =>
    some (s.modify n fun m => { m with prev := some iNode }, .headUnlock k iNode n)
  | .moveEnd k iNode =>
    some ((s.modify iNode fun m => { m with hash := some (bucketOf k) }).setFirst (bucketOf k)
      (some iNode), .rekey k iNode)
  | .rekey k iNode => some (s.rekey iNode k.1 k.2, .allocUnlock k iNode)
  | .posAccess op pos => some ((op.access s pos).1, .posUnlock op pos (op.access s pos).2)
  | _ => none

/-- The lock operation a thread waits in, and where it goes on once it has the lock. -/
def Pc.locking : Pc → Option (Lock × Pc)
  | .bucketLock k c => some (.bucket (bucketOf k), .first k c)
  | .walkLock k c iNode => some (.node iNode, .compare k c iNode)
  | .allocLock k allowReserved iNode => some (.node iNode, .inspect k allowReserved iNode)
  | .prevLock k iNode oldBucket p => some (.node p, .prevWrite k iNode oldBucket p)
  | .nextLock k iNode oldBucket n => some (.node n, .nextWrite k iNode oldBucket n)
  | .headLock k iNode n => some (.node n, .headWrite k iNode n)
  | .posLock op pos => some (.node pos, .posAccess op pos)
  | _ => none

/-- The unlock operation a thread is at, and where it goes on. -/
def Pc.unlocking : Pc → Option (Lock × Pc)
  | .hitUnlock k iNode answer => some (.node iNode, .bucketUnlock k answer)
  | .missUnlock k c iNode next => some (.node iNode, walkAt k c next)
  | .bucketUnlock k answer => some (.bucket (bucketOf k), .out (some answer))
  | .retryUnlock k allowReserved iNode => some (.node iNode, .fetchNode k allowReserved)
  | .prevUnlock k iNode oldBucket p => some (.node p, .removeNext k iNode oldBucket)
  | .nextUnlock k iNode oldBucket n => some (.node n, .removeEnd k iNode oldBucket (some n))
  | .oldUnlock k iNode oldBucket => some (.bucket oldBucket, .moveTo k iNode)
  | .headUnlock k iNode n => some (.node n, .moveEnd k iNode)
  | .allocUnlock k iNode =>
    some (.node iNode, .bucketUnlock k (.handle ⟨iNode, true⟩))
  | .posUnlock _ pos answer => some (.node pos, .out (some answer))
  | _ => none

/-- The try-lock a thread is at, with where it goes on when it gets the lock and when not. -/
def Pc.trying : Pc → Option (Lock × Pc × Pc)
  | .tryLock k allowReserved iNode oldBucket =>
    some (.bucket oldBucket, .removePrev k iNode oldBucket, .retryUnlock k allowReserved iNode)
  | _ => none

/-- One step of one thread. -/
def State.step (s : State τ) : Event τ → Option (State τ)
  | .call t c =>
    match s.pc t with
    | .out _ => some (s.code t s.buf c.start)
    | _ => none
  | .step t =>
    match (s.pc t).code cfg bucketOf s.buf with
    | some (buf, pc) => some (s.code t buf pc)
    | none =>
      match (s.pc t).locking bucketOf with
      | some (l, pc) => s.lock t l pc
      | none =>
        match (s.pc t).unlocking bucketOf with
        | some (l, pc) => some (s.unlock t l pc)
        | none =>
          match (s.pc t).trying with
          | some (l, got, busy) =>
            if s.owner l = none then s.lock t l got else some (s.code t s.buf busy)
          | none => none

/-- All runs of any number of threads on a freshly set up buffer. -/
def machine : Machine (State τ) (Event τ) where
  init s := s = { buf := .setup, owner := fun _ => none, pc := fun _ => .out none }
  step := State.step cfg bucketOf

/-- The lock a thread is about to lock. -/
def State.wants (s : State τ) (t : τ) : Option Lock := ((s.pc t).locking bucketOf).map Prod.fst

/-- `t` waits for a lock that `u` holds. -/
abbrev State.WaitsFor (s : State τ) : τ → τ → Prop := Lib.WaitsFor s.owner (s.wants bucketOf)

/-- `t` is blocked on a lock. -/
abbrev State.Blocked (s : State τ) : τ → Prop := Lib.Blocked s.owner (s.wants bucketOf)

end Step

end UnifiedCache.Cache.BufferLocks
