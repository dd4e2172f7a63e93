import UnifiedCache.Lib.OnlineSoftmax
import UnifiedCache.Lib.Programs
import UnifiedCache.Lib.Strides
import Mathlib.Data.List.ProdSigma

/-!
# Attention with two rotations

`unified_attention_rerope` lets every query of a batch attend to the cached keys of its sequence. Near
keys are scored by `q` and `k`, distant ones by `q2` and `k2`. A program of a kernel takes the queries of
one block and one head of the keys, and passes over the blocks of keys once. Either it passes over all of
them, or the blocks are split into segments and `reduce_segments` combines what their programs leave. The
numbers are exact; the branches for `fp8` tensors are left out.
-/

open Finset Lib
open Lib.OnlineSoftmax (expBot against)

namespace UnifiedCache.Sparse.UnifiedAttention

variable {α : Type}

/-- `cdiv_fn`. -/
def cdivFn (x y : Nat) : Nat := (x + y - 1) / y

/-- `apply_softcap`. -/
def applySoftcap [Field α] (exp : α → α) (s x : α) : α :=
  let sDiv := s / x
  let p1 := exp sDiv
  let p2 := exp (-sDiv)
  x * (p1 - p2) / (p1 + p2)

/-- The loop of `find_seq_idx`, on `left` and `right`. -/
def findSeqIdxLoop (queryStartLen : Nat → Nat) (targetIdx blockQ : Nat) (useQBlockMode : Bool)
    (left right : Nat) : Nat :=
  if left < right then
    let mid := (left + right) / 2
    let val := queryStartLen mid
    let midVal := if useQBlockMode then val / blockQ + mid else val
    if midVal ≤ targetIdx then
      findSeqIdxLoop queryStartLen targetIdx blockQ useQBlockMode (mid + 1) right
    else
      findSeqIdxLoop queryStartLen targetIdx blockQ useQBlockMode left mid
  else left
termination_by right - left

/-- `find_seq_idx`. The first entry is `0`, so `left` is not. -/
def findSeqIdx (queryStartLen : Nat → Nat) (targetIdx numSeqs blockQ : Nat) (useQBlockMode : Bool) : Nat :=
  findSeqIdxLoop queryStartLen targetIdx blockQ useQBlockMode 0 numSeqs - 1

/-- `tl.load(ptr + offset, mask=mask, other=0.0)`, for one element. -/
def load [Zero α] (mem : Nat → α) (offset : Nat) (mask : Bool) : α := if mask then mem offset else 0

/-- `tl.store(ptr + offset, tile, mask=mask)`, element after element. -/
def store {V : Type} (rows cols : Nat) (offset : Nat → Nat → Nat) (tile : Nat → Nat → V)
    (mask : Nat → Nat → Bool) : (Nat → V) → Nat → V :=
  Programs.run (fun (m, d) mem => if mask m d then Function.update mem (offset m d) (tile m d) else mem)
    ((List.range rows).product (List.range cols))

/-- The arguments that the kernels share. Pointers are memories. -/
structure Args (α : Type) where
  query : Nat → α
  keyCache : Nat → α
  query2 : Nat → α
  keyCache2 : Nat → α
  valueCache : Nat → α
  blockTables : Nat → Nat
  seqLens : Nat → Nat
  alibiSlopes : Nat → α
  scale : α
  softcap : α
  numQueryHeads : Nat
  numQueriesPerKv : Nat
  blockTableStride : Nat
  queryStride0 : Nat
  queryStride1 : Nat
  query2Stride0 : Nat
  query2Stride1 : Nat
  reropeWindow : Int
  blockSize : Nat
  headSize : Nat
  headSizePadded : Nat
  useAlibiSlopes : Bool
  useSoftcap : Bool
  slidingWindow : Int
  strideKCache : Nat → Nat
  strideKCache2 : Nat → Nat
  strideVCache : Nat → Nat
  queryStartLen : Nat → Nat
  blockQ : Nat
  numSeqs : Nat
  blockM : Nat

/-- What a program knows of its queries and keys. -/
structure QBlock where
  seqIdx : Nat
  qBlockLocalIdx : Nat
  curBatchInAllStartIndex : Nat
  curBatchQueryLen : Nat
  kvHeadIdx : Nat

/-- `M`, `L` and `acc`. -/
structure Tiles (α : Type) where
  M : Nat → WithBot α
  L : Nat → α
  acc : Nat → Nat → α

namespace Args

variable (args : Args α) (b : QBlock)

/-- The block of queries of a program. -/
def qBlock (qBlockGlobalIdx kvHeadIdx : Nat) : QBlock :=
  let seqIdx := findSeqIdx args.queryStartLen qBlockGlobalIdx args.numSeqs args.blockQ true
  let qBlockStartIdx := args.queryStartLen seqIdx / args.blockQ + seqIdx
  let curBatchInAllStartIndex := args.queryStartLen seqIdx
  let curBatchInAllStopIndex := args.queryStartLen (seqIdx + 1)
  { seqIdx
    qBlockLocalIdx := qBlockGlobalIdx - qBlockStartIdx
    curBatchInAllStartIndex
    curBatchQueryLen := curBatchInAllStopIndex - curBatchInAllStartIndex
    kvHeadIdx }

/-- `query_pos`. -/
def queryPos (m : Nat) : Nat := b.qBlockLocalIdx * args.blockQ + m / args.numQueriesPerKv

/-- `query_offset_0`. -/
def queryOffset0 (m : Nat) : Nat := b.curBatchInAllStartIndex + args.queryPos b m

/-- `query_offset_1`. -/
def queryOffset1 (m : Nat) : Nat := b.kvHeadIdx * args.numQueriesPerKv + m % args.numQueriesPerKv

/-- `dim_mask`. -/
def dimMask (d : Nat) : Bool := d < args.headSize

/-- `query_mask_0`. -/
def queryMask0 (m : Nat) : Bool := args.queryPos b m < b.curBatchQueryLen

/-- `query_mask_1`. -/
def queryMask1 (m : Nat) : Bool := args.queryOffset1 b m < args.numQueryHeads

/-- The mask of the queries and of the output. -/
def mask (m d : Nat) : Bool := args.dimMask d && args.queryMask0 b m && args.queryMask1 b m

/-- `context_len`. -/
def contextLen : Int := args.seqLens b.seqIdx - b.curBatchQueryLen

/-- `physical_block_idx`. -/
def physicalBlockIdx (j : Nat) : Nat := args.blockTables (b.seqIdx * args.blockTableStride + j)

/-- `seq_offset`. -/
def seqOffset (j n : Nat) : Nat := j * args.blockSize + n

/-- `num_blocks`. -/
def numBlocks : Nat := cdivFn (args.seqLens b.seqIdx) args.blockSize

variable [Field α] [LinearOrder α]

/-- `Q` and `Q2`, by their memory and strides. -/
def tileQ (query : Nat → α) (stride0 stride1 m d : Nat) : α :=
  load query (args.queryOffset0 b m * stride0 + args.queryOffset1 b m * stride1 + d) (args.mask b m d)

/-- `K`, `K2` and the transposed `V`, by their memory and strides. -/
def tileK (cache : Nat → α) (stride : Nat → Nat) (j d n : Nat) : α :=
  load cache (args.physicalBlockIdx b j * stride 0 + b.kvHeadIdx * stride 2 + d * stride 3 + n * stride 1)
    (args.dimMask d)

/-- `S1` and `S2`, from the tiles of the queries and the keys. -/
def dots (exp : α → α) (Q K : Nat → Nat → α) (m n : Nat) : α :=
  let S := args.scale * ∑ d ∈ range args.headSizePadded, Q m d * K d n
  if args.useSoftcap then applySoftcap exp S args.softcap else S

/-- `S`. -/
def scores (exp : α → α) (j m n : Nat) : WithBot α :=
  let queryPos := args.queryPos b m
  let seqOffset := args.seqOffset j n
  let contextLen := args.contextLen b
  let S1 := args.dots exp (args.tileQ b args.query args.queryStride0 args.queryStride1)
    (args.tileK b args.keyCache args.strideKCache j) m n
  let S2 := args.dots exp (args.tileQ b args.query2 args.query2Stride0 args.query2Stride1)
    (args.tileK b args.keyCache2 args.strideKCache2 j) m n
  let posDiff := |contextLen + queryPos + 1 - seqOffset|
  let S : WithBot α :=
    if posDiff < args.reropeWindow ∧ queryPos < b.curBatchQueryLen then S1 else S2
  let S := if (args.queryMask1 b m && args.queryMask0 b m) ∧ seqOffset < contextLen + queryPos + 1
    then S else ⊥
  let S := if args.slidingWindow > 0 then
      if contextLen + queryPos - seqOffset < args.slidingWindow then S else ⊥
    else S
  if args.useAlibiSlopes then
    let alibiSlope := load args.alibiSlopes (args.queryOffset1 b m) (args.queryMask1 b m)
    S.map (· + alibiSlope * ((seqOffset - contextLen : Int) : α))
  else S

/-- The tiles before the loop. -/
def start : Tiles α where
  M _ := ⊥
  L _ := 1
  acc _ _ := 0

/-- A pass of the loop over the tiles. -/
def pass (exp : α → α) (t : Tiles α) (j : Nat) : Tiles α :=
  let S := args.scores b exp j
  let V n d := args.tileK b args.valueCache args.strideVCache j d n
  let mJ m := max (t.M m) ((range args.blockSize).sup (S m))
  let mJ m := (mJ m).unbotD 0
  let P m n := expBot exp (against (S m n) (mJ m))
  let lJ m := ∑ n ∈ range args.blockSize, P m n
  let alpha m := expBot exp (against (t.M m) (mJ m))
  { M m := mJ m
    L m := t.L m * alpha m + lJ m
    acc m d := t.acc m d * alpha m + ∑ n ∈ range args.blockSize, P m n * V n d }

/-- The loop over some tiles. -/
def loop (exp : α → α) (tiles : List Nat) : Tiles α := tiles.foldl (args.pass b exp) start

end Args

/-! ## The kernels -/

section Kernels

variable [Field α] [LinearOrder α]

/-- `kernel_unified_attention_2d`: what a program makes of the memory of the output. -/
def kernelUnifiedAttention2d (exp : α → α) (args : Args α) (outputStride0 outputStride1 : Nat)
    (pid : Nat × Nat) (output : Nat → α) : Nat → α :=
  let (qBlockGlobalIdx, kvHeadIdx) := pid
  let b := args.qBlock qBlockGlobalIdx kvHeadIdx
  if b.qBlockLocalIdx * args.blockQ ≥ b.curBatchQueryLen then output
  else
    let t := args.loop b exp (List.range (args.numBlocks b))
    store args.blockM args.headSizePadded
      (fun m d => args.queryOffset0 b m * outputStride0 + args.queryOffset1 b m * outputStride1 + d)
      (fun m d => t.acc m d / t.L m) (args.mask b) output

/-- The memories of `segm_output`, `segm_max` and `segm_expsum`. -/
structure Segments (α : Type) where
  output : Nat → α
  max : Nat → WithBot α
  expsum : Nat → α

/-- `blocks_per_segment`. -/
def blocksPerSegment (seqLen numSegments blockSize : Nat) : Nat := cdivFn seqLen (numSegments * blockSize)

/-- `kernel_unified_attention_3d`: what a program makes of the memories of the segments. -/
def kernelUnifiedAttention3d (exp : α → α) (args : Args α) (numSegmentsPerSeq : Nat)
    (pid : Nat × Nat × Nat) (segm : Segments α) : Segments α :=
  let (qBlockGlobalIdx, kvHeadIdx, segmIdx) := pid
  let b := args.qBlock qBlockGlobalIdx kvHeadIdx
  if b.qBlockLocalIdx * args.blockQ ≥ b.curBatchQueryLen then segm
  else
    let seqLen := args.seqLens b.seqIdx
    let blocksPerSegment := blocksPerSegment seqLen numSegmentsPerSeq args.blockSize
    if segmIdx * blocksPerSegment * args.blockSize ≥ seqLen then segm
    else
      let first := segmIdx * blocksPerSegment
      let last := min ((segmIdx + 1) * blocksPerSegment) (args.numBlocks b)
      let t := args.loop b exp (List.range' first (last - first))
      let segmOffset m := args.queryOffset0 b m * (args.numQueryHeads * numSegmentsPerSeq) +
        args.queryOffset1 b m * numSegmentsPerSeq + segmIdx
      let rowMask m _ := args.queryMask0 b m && args.queryMask1 b m
      { output := store args.blockM args.headSizePadded
          (fun m d =>
            args.queryOffset0 b m * (args.numQueryHeads * numSegmentsPerSeq * args.headSizePadded) +
              args.queryOffset1 b m * (numSegmentsPerSeq * args.headSizePadded) +
              segmIdx * args.headSizePadded + d)
          t.acc (args.mask b) segm.output
        max := store args.blockM 1 (fun m _ => segmOffset m) (fun m _ => t.M m) rowMask segm.max
        expsum := store args.blockM 1 (fun m _ => segmOffset m) (fun m _ => t.L m) rowMask segm.expsum }

/-- `acc` of `reduce_segments`. Segment `0` has a key, so `overall_max` is a number. -/
def reduceAcc (exp : α → α) (args : Args α) (segm : Segments α) (numSegmentsPerSeq queryTokenIdx
    queryHeadIdx d : Nat) : α :=
  let seqIdx := findSeqIdx args.queryStartLen queryTokenIdx args.numSeqs args.blockQ false
  let seqLen := args.seqLens seqIdx
  let blocksPerSegment := blocksPerSegment seqLen numSegmentsPerSeq args.blockSize
  let actNumSegments := cdivFn seqLen (blocksPerSegment * args.blockSize)
  let segmMask (s : Nat) : Bool := s < actNumSegments
  let segmOffset s := queryTokenIdx * (args.numQueryHeads * numSegmentsPerSeq) +
    queryHeadIdx * numSegmentsPerSeq + s
  let segmMax s := if segmMask s then segm.max (segmOffset s) else ⊥
  let overallMax := ((range numSegmentsPerSeq).sup segmMax).unbotD 0
  let factor s := expBot exp (against (segmMax s) overallMax)
  let segmExpsum s := load segm.expsum (segmOffset s) (segmMask s) * factor s
  let overallExpsum := ∑ s ∈ range numSegmentsPerSeq, segmExpsum s
  let segmOutputOffset s :=
    queryTokenIdx * (args.numQueryHeads * numSegmentsPerSeq * args.headSizePadded) +
      queryHeadIdx * (numSegmentsPerSeq * args.headSizePadded) + s * args.headSizePadded + d
  let segmOutput s := load segm.output (segmOutputOffset s) (segmMask s && args.dimMask d) * factor s
  let accSum := ∑ s ∈ range numSegmentsPerSeq, segmOutput s
  if overallExpsum = 0 then 0 else accSum / overallExpsum

/-- `reduce_segments`: what a program makes of the memory of the output. -/
def reduceSegments (exp : α → α) (args : Args α) (segm : Segments α) (numSegmentsPerSeq : Nat)
    (outputStride0 outputStride1 : Nat) (pid : Nat × Nat) (output : Nat → α) : Nat → α :=
  let (queryTokenIdx, queryHeadIdx) := pid
  store 1 args.headSizePadded (fun _ d => queryTokenIdx * outputStride0 + queryHeadIdx * outputStride1 + d)
    (fun _ d => reduceAcc exp args segm numSegmentsPerSeq queryTokenIdx queryHeadIdx d)
    (fun _ d => args.dimMask d) output

end Kernels

/-! ## The launch -/

/-- A tensor. -/
structure Tensor (V : Type) where
  data : Nat → V
  shape : List Nat
  strides : List Nat

namespace Tensor

variable {V : Type} (t : Tensor V)

/-- `tensor.shape[k]`. -/
def size (k : Nat) : Nat := t.shape.getD k 0

/-- `tensor.stride(k)`. -/
def stride (k : Nat) : Nat := t.strides.getD k 0

/-- Where an element lies. -/
def offset (index : List Nat) : Nat := Strides.offset t.strides index

/-- An element. -/
def get (index : List Nat) : V := t.data (t.offset index)

end Tensor

/-- The arguments of `unified_attention_rerope`. -/
structure Batch (α : Type) where
  q : Tensor α
  k : Tensor α
  q2 : Tensor α
  k2 : Tensor α
  v : Tensor α
  cuSeqlensQ : Nat → Nat
  maxSeqlenQ : Nat
  sequsedK : List Nat
  softmaxScale : α
  causal : Bool
  reropeWindow : Int
  windowSize : Int × Int
  blockTable : Tensor Nat
  softcap : α
  alibiSlopes : Option (Nat → α)

namespace Batch

variable (batch : Batch α)

/-- `num_query_heads`. -/
def numQueryHeads : Nat := batch.q.size 1

/-- `num_kv_heads`. -/
def numKvHeads : Nat := batch.k.size 2

/-- `num_queries_per_kv`. -/
def numQueriesPerKv : Nat := batch.numQueryHeads / batch.numKvHeads

/-- `BLOCK_Q`. -/
def blockQ : Nat := 16 / batch.numQueriesPerKv

/-- `total_num_q_blocks`. -/
def totalNumQBlocks : Nat := batch.q.size 0 / batch.blockQ + batch.sequsedK.length

variable [Field α] [LinearOrder α]

/-- What both kernels are given. The strides of `k2` are an argument. -/
def args (nextPowerOf2 : Nat → Nat) (strideKCache2 : Nat → Nat) : Args α where
  query := batch.q.data
  keyCache := batch.k.data
  query2 := batch.q2.data
  keyCache2 := batch.k2.data
  valueCache := batch.v.data
  blockTables := batch.blockTable.data
  seqLens := fun i => batch.sequsedK.getD i 0
  alibiSlopes := batch.alibiSlopes.getD fun _ => 0
  scale := batch.softmaxScale
  softcap := batch.softcap
  numQueryHeads := batch.numQueryHeads
  numQueriesPerKv := batch.numQueriesPerKv
  blockTableStride := batch.blockTable.stride 0
  queryStride0 := batch.q.stride 0
  queryStride1 := batch.q.stride 1
  query2Stride0 := batch.q2.stride 0
  query2Stride1 := batch.q2.stride 1
  reropeWindow := batch.reropeWindow
  blockSize := batch.v.size 1
  headSize := batch.q.size 2
  headSizePadded := nextPowerOf2 (batch.q.size 2)
  useAlibiSlopes := batch.alibiSlopes.isSome
  useSoftcap := 0 < batch.softcap
  slidingWindow := 1 + batch.windowSize.1
  strideKCache := batch.k.stride
  strideKCache2 := strideKCache2
  strideVCache := batch.v.stride
  queryStartLen := batch.cuSeqlensQ
  blockQ := batch.blockQ
  numSeqs := batch.sequsedK.length
  blockM := 16

/-- `NUM_SEGMENTS`. -/
def numSegments : Nat := 16

/-- The order in which the programs of each grid run. -/
structure Schedule where
  grid2d : List (Nat × Nat)
  grid3d : List (Nat × Nat × Nat)
  gridReduce : List (Nat × Nat)

/-- Whether a batch is for the kernel that passes over all tiles. -/
def for2d : Bool := batch.maxSeqlenQ > 1 ∨ batch.totalNumQBlocks * batch.numKvHeads > 128

/-- `unified_attention_rerope`: the memory of `out`. The memories of the segments are not initialized. -/
def unifiedAttentionRerope (exp : α → α) (nextPowerOf2 : Nat → Nat) (sched : Schedule) (empty : Segments α)
    (out : Tensor α) : Option (Tensor α) :=
  if !batch.causal then none
  else if batch.for2d then
    -- the launch passes the strides of `k` for those of `k2`
    let args := batch.args nextPowerOf2 batch.k.stride
    some { out with
      data := Programs.run (kernelUnifiedAttention2d exp args (out.stride 0) (out.stride 1)) sched.grid2d
        out.data }
  else
    let args := batch.args nextPowerOf2 batch.k2.stride
    let segm := sched.grid3d.foldl (fun segm pid => kernelUnifiedAttention3d exp args numSegments pid segm)
      empty
    some { out with
      data := Programs.run (reduceSegments exp args segm numSegments (out.stride 0) (out.stride 1))
        sched.gridReduce out.data }

/-! ## The attention

The attention of a batch, on the elements of its tensors. -/

omit [Field α] [LinearOrder α] in
/-- The number of keys of a sequence. -/
def seqLen (i : Nat) : Nat := batch.sequsedK.getD i 0

omit [Field α] [LinearOrder α] in
/-- The number of keys before the first query of a sequence. -/
def contextLen (i : Nat) : Nat := batch.seqLen i - (batch.cuSeqlensQ (i + 1) - batch.cuSeqlensQ i)

omit [Field α] [LinearOrder α] in
/-- The place of a token among the keys of its sequence. -/
def position (i t : Nat) : Nat := batch.contextLen i + (t - batch.cuSeqlensQ i)

omit [Field α] [LinearOrder α] in
/-- The index of a cached key. -/
def keyIndex (i head n d : Nat) : List Nat :=
  [batch.blockTable.get [i, n / batch.v.size 1], n % batch.v.size 1, head / batch.numQueriesPerKv, d]

omit [Field α] [LinearOrder α] in
/-- A query sees the keys up to its own, and with a window only the last of them. -/
def Visible (i t n : Nat) : Prop :=
  n ≤ batch.position i t ∧ (0 ≤ batch.windowSize.1 → (batch.position i t : Int) - n ≤ batch.windowSize.1)

instance (i t : Nat) : DecidablePred (batch.Visible i t) := fun n =>
  inferInstanceAs (Decidable (n ≤ batch.position i t ∧ (_ → _)))

/-- The score of a query and a key, from their product. -/
def capped (exp : α → α) (dot : α) : α :=
  let s := batch.softmaxScale * dot
  if 0 < batch.softcap then applySoftcap exp s batch.softcap else s

/-- The score with the slope of the head. -/
def biased (i head n : Nat) (s : α) : α :=
  match batch.alibiSlopes with
  | some slopes => s + slopes head * (((n : Int) - batch.contextLen i : Int) : α)
  | none => s

omit [LinearOrder α] in
/-- The product of a query and a key, by one pair of tensors. -/
def product (q k : Tensor α) (i t head n : Nat) : α :=
  ∑ d ∈ range (batch.q.size 2), q.get [t, head, d] * k.get (batch.keyIndex i head n d)

/-- How well a query and a key match. The key is near if it is within the window of the next place. -/
def logit (exp : α → α) (i t head n : Nat) : α :=
  let near : Bool := (batch.position i t : Int) + 1 - n < batch.reropeWindow
  batch.biased i head n (batch.capped exp (if near then batch.product batch.q batch.k i t head n
    else batch.product batch.q2 batch.k2 i t head n))

/-- The keys that a query sees. -/
def seen (i t : Nat) : Finset Nat := (range (batch.seqLen i)).filter (batch.Visible i t)

/-- The attention of a query head to the values. -/
def attention (exp : α → α) (i t head d : Nat) : α :=
  (∑ n ∈ batch.seen i t, exp (batch.logit exp i t head n) * batch.v.get (batch.keyIndex i head n d)) /
    ∑ n ∈ batch.seen i t, exp (batch.logit exp i t head n)

end Batch

end UnifiedCache.Sparse.UnifiedAttention
