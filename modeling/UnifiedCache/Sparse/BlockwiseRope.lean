import UnifiedCache.Lib.Strides
import UnifiedCache.Lib.Programs
import Mathlib.Algebra.Ring.Basic
import Mathlib.Algebra.Ring.Pi

/-!
# Rotating the keys of blocks

`block_wise_rope_forward` rotates the keys of some blocks in place: each program of the kernel takes one
head of one token. `rope_naive_torch` does the same with loops, on a copy. A contiguous tensor is a memory
in which an element lies at its offset; the numbers are exact.
-/

open Lib

namespace UnifiedCache.Sparse.BlockwiseRope

/-- `k_cache.shape`. -/
structure CacheShape where
  totalBlocks : Nat
  seqLen : Nat
  nKvHead : Nat
  headDim : Nat

namespace CacheShape

/-- The dimensions of the cache. -/
def dims (shape : CacheShape) : List Nat :=
  [shape.totalBlocks, shape.seqLen, shape.nKvHead, shape.headDim]

/-- Where an element of the cache lies. -/
def address (shape : CacheShape) (block token head j : Nat) : Nat :=
  Strides.offset (Strides.contiguous shape.dims) [block, token, head, j]

end CacheShape

/-- `tensor.stride(k)`, for a contiguous tensor. -/
def stride (dims : List Nat) (k : Nat) : Nat := (Strides.contiguous dims).getD k 0

variable {K : Type} [CommRing K]

/-! ## The kernel -/

/-- `tl.load(ptr + offs, mask=mask, other=0)`, where `offs` is `tl.arange(0, n)`. -/
def load {n : Nat} (mem : Nat → K) (ptr : Nat) (mask : Fin n → Bool) : Fin n → K := fun offs =>
  if mask offs then mem (ptr + offs) else 0

/-- `tl.store(ptr + offs, tile, mask=mask)`. -/
def store {n : Nat} (mem : Nat → K) (ptr : Nat) (tile : Fin n → K) (mask : Fin n → Bool) : Nat → K :=
  fun a =>
    if h : ptr ≤ a ∧ a - ptr < n then
      if mask ⟨a - ptr, h.2⟩ then tile ⟨a - ptr, h.2⟩ else mem a
    else mem a

/-- `_triton_rope_blockwise_kernel`: what program `pid` makes of the memory of the keys. -/
def kernel (vllmIds positions : Nat → Nat) (cosSinCache : Nat → K)
    (kRowStride cosSinRowStride sl nKh hd padHd pid : Nat) (mem : Nat → K) : Nat → K :=
  let tokensPerBatch := sl * nKh
  let batchIdx := pid / tokensPerBatch
  let seqHeadIdx := pid % tokensPerBatch
  let seqIdx := seqHeadIdx / nKh
  let headIdx := seqHeadIdx % nKh
  let blockId := vllmIds batchIdx
  let posIdx := positions batchIdx
  let kPtr := blockId * kRowStride + seqIdx * (nKh * hd) + headIdx * hd
  let cosBase := posIdx * cosSinRowStride
  let sinBase := cosBase + hd / 2
  let mask : Fin (padHd / 2) → Bool := fun offs => (offs : Nat) < hd / 2
  let cosRow := load cosSinCache cosBase mask
  let sinRow := load cosSinCache sinBase mask
  let kTile1 := load mem kPtr mask
  let kTile2 := load mem (kPtr + hd / 2) mask
  let newKTile1 := kTile1 * cosRow - kTile2 * sinRow
  let newKTile2 := kTile2 * cosRow + kTile1 * sinRow
  store (store mem kPtr newKTile1 mask) (kPtr + hd / 2) newKTile2 mask

/-- `n_row`: the programs of the kernel. -/
def nRow (shape : CacheShape) (vllmIds : List Nat) : Nat :=
  vllmIds.length * shape.seqLen * shape.nKvHead

/-- `block_wise_rope_forward` on the memory of `k_cache`, where the programs run in this order. The table
has `rows` rows; `nextPowerOf2` is Triton's. -/
def blockWiseRopeForward (nextPowerOf2 : Nat → Nat) (shape : CacheShape) (rows : Nat)
    (cosSinCache : Nat → K) (vllmIds positions order : List Nat) (kCache : Nat → K) : Nat → K :=
  let padHd := nextPowerOf2 shape.headDim
  Programs.run
    (kernel (fun b => vllmIds.getD b 0) (fun b => positions.getD b 0) cosSinCache (stride shape.dims 0)
      (stride [1, rows, shape.headDim] 1) shape.seqLen shape.nKvHead shape.headDim padHd)
    order kCache

/-! ## The loops -/

/-- A cache by block, token and head. -/
abbrev Cache (shape : CacheShape) (K : Type) : Type :=
  Fin shape.totalBlocks × Fin shape.seqLen × Fin shape.nKvHead → List K

/-- The cache that lies in a memory. -/
def cacheOf (shape : CacheShape) (mem : Nat → K) : Cache shape K := fun (block, token, head) =>
  (List.range shape.headDim).map fun j => mem (shape.address block token head j)

/-- The table that lies in a memory, without its first dimension. -/
def tableOf (rows hd : Nat) (mem : Nat → K) : Fin rows → List K := fun pos =>
  (List.range hd).map fun j =>
    mem (Strides.offset (Strides.contiguous [1, rows, hd]) [0, pos, j])

/-- `cos_table`, of the table in a memory. -/
def cosTable (hd : Nat) (mem : Nat → K) (pos j : Nat) : K := mem (pos * hd + j)

/-- `sin_table`. -/
def sinTable (hd : Nat) (mem : Nat → K) (pos j : Nat) : K := mem (pos * hd + hd / 2 + j)

/-- An index below a bound. Any other is an error. -/
def index (n i : Nat) : Option (Fin n) := if h : i < n then some ⟨i, h⟩ else none

/-- What the innermost loop writes back for a head. -/
def rotateVec (half : Nat) (row kVec : List K) : List K :=
  let cos := row.take half
  let sin := row.drop half
  let k1 := kVec.take half
  let k2 := kVec.drop half
  let newK1 := List.zipWith (· - ·) (List.zipWith (· * ·) k1 cos) (List.zipWith (· * ·) k2 sin)
  let newK2 := List.zipWith (· + ·) (List.zipWith (· * ·) k2 cos) (List.zipWith (· * ·) k1 sin)
  newK1 ++ newK2

/-- `rope_naive_torch`. -/
def ropeNaiveTorch {shape : CacheShape} {rows : Nat} (kCache : Cache shape K)
    (vllmIds positions : List Nat) (cosSinCache : Fin rows → List K) : Option (Cache shape K) :=
  let half := shape.headDim / 2
  (List.finRange vllmIds.length).foldlM (fun kOut b => do
    let blk := vllmIds[b]
    let pos ← positions[b]?
    (List.finRange shape.seqLen).foldlM (fun kOut s => do
      let pos ← index rows pos
      (List.finRange shape.nKvHead).foldlM (fun kOut h => do
        let blk ← index shape.totalBlocks blk
        let kVec := kOut (blk, s, h)
        some (Function.update kOut (blk, s, h) (rotateVec half (cosSinCache pos) kVec))) kOut) kOut) kCache

end UnifiedCache.Sparse.BlockwiseRope
