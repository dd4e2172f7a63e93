import UnifiedCache.Cache.Pins
import UnifiedCache.Lib.Lookup

/-!
# Looking blocks up

`BufferManager` answers `Lookup` and `LookupOnPrefix` of the cache store. A block counts as present
when the buffer has its shard 0; the others are looked up in the backend.

Other threads run between the calls of `Exist`, so every block comes with the buffer as it is when the
block is looked up. The backend is any store that meets the contract of `StoreV1`: it reports a block
only if all shards of the block are stored.
-/

open Lib

namespace UnifiedCache.Cache

/-- `Lookup` and `LookupOnPrefix` of the backend, `none` for a failure. -/
structure Backend where
  lookup : List BlockId → Option (List Bool)
  lookupOnPrefix : List BlockId → Option Int

/-- What the loop of `BufferManager::Lookup` collects. -/
structure LookupScan where
  results : List Bool
  missBlk : List BlockId
  missIdx : List Nat
deriving DecidableEq, Repr

namespace BufferManager

variable (cfg : BufferConfig)

/-- `buffer_->Exist(block, 0)`. -/
def hit (x : BlockId × TransBuffer) : Bool := x.2.exist cfg x.1 0

/-- The loop of `BufferManager::Lookup`, from block number `i` on. -/
def lookupLoop : Nat → List (BlockId × TransBuffer) → LookupScan → LookupScan
  | _, [], acc => acc
  | i, x :: rest, acc =>
    if hit cfg x then
      lookupLoop (i + 1) rest { acc with results := acc.results ++ [true] }
    else
      lookupLoop (i + 1) rest
        ⟨acc.results ++ [false], acc.missBlk ++ [x.1], acc.missIdx ++ [i]⟩

/-- `results[missIdx[i]] = backendVec[i]`, for all `i`. -/
def fill (missIdx : List Nat) (backendVec results : List Bool) : List Bool :=
  (missIdx.zip backendVec).foldl (fun results x => results.set x.1 x.2) results

/-- `BufferManager::LookupFast`. -/
def lookupFast (backend : Backend) (blocks : List (BlockId × TransBuffer)) : Option (List Bool) :=
  let scan := lookupLoop cfg 0 blocks ⟨[], [], []⟩
  if scan.missBlk.isEmpty then some scan.results
  else (backend.lookup scan.missBlk).map fun backendVec =>
    fill scan.missIdx backendVec scan.results

/-- `BufferManager::LookupOnPrefixFast`. -/
def lookupOnPrefixFast (backend : Backend) (blocks : List (BlockId × TransBuffer)) : Option Int :=
  let scan := lookupLoop cfg 0 blocks ⟨[], [], []⟩
  if scan.missBlk.isEmpty then some (blocks.length - 1)
  else (backend.lookupOnPrefix scan.missBlk).map fun result =>
    if (result + 1).toNat = scan.missIdx.length then (blocks.length : Int) - 1
    else (scan.missIdx.getD (result + 1).toNat 0 : Int) - 1

/-- `BufferManager::Lookup`; without a buffer it is the backend's. -/
def lookup (buffered : Bool) (backend : Backend) (blocks : List (BlockId × TransBuffer)) :
    Option (List Bool) :=
  if buffered then lookupFast cfg backend blocks else backend.lookup (blocks.map Prod.fst)

/-- `BufferManager::LookupOnPrefix`. -/
def lookupOnPrefix (buffered : Bool) (backend : Backend) (blocks : List (BlockId × TransBuffer)) :
    Option Int :=
  if buffered then lookupOnPrefixFast cfg backend blocks
  else backend.lookupOnPrefix (blocks.map Prod.fst)

end BufferManager

/-! ## Multi-shard blocks -/

/-- All shards of the block are stored. -/
def Whole (nShard : Nat) (stored : Finset Key) (b : BlockId) : Prop :=
  ∀ k < nShard, (b, k) ∈ stored

instance (nShard : Nat) (stored : Finset Key) (b : BlockId) : Decidable (Whole nShard stored b) :=
  inferInstanceAs (Decidable (∀ k < nShard, _))

/-- The contract of `StoreV1`: a block is reported only if all its shards are stored. -/
structure Backend.Ok (nShard : Nat) (stored : Finset Key) (backend : Backend) : Prop where
  length : ∀ blocks v, backend.lookup blocks = some v → v.length = blocks.length
  lookup : ∀ blocks v, backend.lookup blocks = some v → ∀ (i : Nat) b, blocks[i]? = some b →
    v[i]? = some true → Whole nShard stored b
  bounds : ∀ blocks r, backend.lookupOnPrefix blocks = some r → -1 ≤ r ∧ r < blocks.length
  lookupOnPrefix : ∀ blocks r, backend.lookupOnPrefix blocks = some r → ∀ (i : Nat) b,
    blocks[i]? = some b → (i : Int) ≤ r → Whole nShard stored b

/-- The backend reports exactly the blocks that are `present`, and the longest prefix of them. -/
structure Backend.Exact (present : BlockId → Bool) (backend : Backend) : Prop where
  lookup : ∀ blocks, backend.lookup blocks = some (blocks.map present)
  lookupOnPrefix : ∀ blocks, backend.lookupOnPrefix blocks = some (prefixEnd present blocks)

/-- The block is in the buffer or in the backend. -/
def BufferManager.found (cfg : BufferConfig) (present : BlockId → Bool)
    (x : BlockId × TransBuffer) : Bool :=
  hit cfg x || present x.1

/-- The shards of the tasks that are submitted have indices below `nShard`. -/
def IndicesBelow {n : Nat} (nShard : Nat) (_ : State n) (e : Event n) : Prop :=
  match e.act with
  | .submit _ desc _ => ∀ shard ∈ desc, shard.index < nShard
  | _ => True

instance {n : Nat} (nShard : Nat) (s : State n) (e : Event n) :
    Decidable (IndicesBelow nShard s e) := by
  unfold IndicesBelow
  split <;> infer_instance

/-- A call of `Lookup` or `LookupOnPrefix` in runs of load and dump tasks over blocks of `nShard`
shards: the blocks, each with the state in which it is looked up in the buffer, and the state in which
the backend is asked. -/
structure LookupCall (cfg : Config) (n nShard : Nat) where
  checks : List (BlockId × State n)
  final : State n
  checks_reach : ∀ x ∈ checks, (storeMachine cfg n).Reach (IndicesBelow nShard) x.2
  final_reach : (storeMachine cfg n).Reach (IndicesBelow nShard) final

namespace LookupCall

variable {cfg : Config} {n nShard : Nat}

/-- The blocks and the buffers. -/
def blocks (c : LookupCall cfg n nShard) : List (BlockId × TransBuffer) :=
  c.checks.map fun x => (x.1, x.2.buf)

/-- Every shard of the block is held by a node, or the whole block is in the backend. -/
def Present (c : LookupCall cfg n nShard) (x : BlockId × State n) : Prop :=
  (∀ k < nShard, ∃ i, x.2.buf.Keyed i x.1 k) ∨ Whole nShard c.final.stored x.1

/-- Whatever the backend answers within its contract, only blocks that are present are reported. -/
def Sound (c : LookupCall cfg n nShard) (buffered : Bool) : Prop :=
  ∀ backend : Backend, backend.Ok nShard c.final.stored →
    (∀ v, BufferManager.lookup cfg.buffer buffered backend c.blocks = some v →
      ∀ (i : Nat) x, c.checks[i]? = some x → v[i]? = some true → c.Present x) ∧
    ∀ r, BufferManager.lookupOnPrefix cfg.buffer buffered backend c.blocks = some r →
      ∀ (i : Nat) x, c.checks[i]? = some x → (i : Int) ≤ r → c.Present x

/-- The buffer has shard 0 of a block only together with all its other shards, or the whole block is in
the backend. -/
def Unsplit (c : LookupCall cfg n nShard) : Prop :=
  ∀ x ∈ c.checks, (∃ i, x.2.buf.Keyed i x.1 0) → c.Present x

end LookupCall

end UnifiedCache.Cache
