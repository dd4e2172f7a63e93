import UnifiedCache.Gsa.KeyHashCache
import UnifiedCache.Lib.Selection
import Mathlib.Algebra.Order.Ring.Nat

/-!
# Top-k blocks by Hamming distance

`cuda_hamming_topk` of GSA on a device: `HammingScoreContiKernel` gives every place of the block table
of a request a score, the least score of a block is the block's, and the blocks with the smallest
scores make up the new row of the block table. `update_seq_lens` says how many tokens to read from it.

Scores have the type `half`, of which only natural numbers and infinity occur. Which blocks
`torch.topk` takes of several with one score is left open.
-/

open Lib

namespace UnifiedCache.Gsa

/-! ## Scores -/

/-- Infinity of type `half`. Finite numbers are below. -/
def infinity : Nat := 65536

/-- The multiple of `unit` next to `n`, the even one of two. -/
def roundEven (n unit : Nat) : Nat :=
  let q := n / unit
  if 2 * (n % unit) < unit ∨ 2 * (n % unit) = unit ∧ q % 2 = 0 then q * unit else (q + 1) * unit

/-- The conversion to `half`, which has eleven digits. -/
def half (n : Nat) : Nat := min (roundEven n (2 ^ (Nat.log2 n - 10))) infinity

/-- `__popc` and `__popcll`. -/
def popc {w : Nat} (x : BitVec w) : Nat := (List.range w).countP fun i => x.getLsbD i

/-- The arguments of `cuda_hamming_topk` that pass its assertions. The rows of the block table follow
each other. -/
structure HammingTopk (sh : Shape) where
  /-- The words of `k_hash`. -/
  keys : Int → BitVec (8 * sh.type.size)
  /-- The words of `q_hash`, by request, head and chunk. -/
  query : Nat → Nat → Nat → BitVec (8 * sh.type.size)
  /-- `KVGroup`. -/
  kvGroup : Nat
  blockTable : Nat → Int
  maxNumBlockPerSeq : Nat
  seqLens : Nat → Nat
  topkToken : Nat
  sinkToken : Nat
  recentToken : Nat
  topk_mod : topkToken % sh.blockSize = 0
  recent_pos : 0 < recentToken
  topk_gt : sinkToken + recentToken < topkToken
  /-- `torch.topk` needs as many blocks as it is to take. -/
  topk_le : topkToken ≤ sh.blockSize * maxNumBlockPerSeq

namespace HammingTopk

variable {sh : Shape} (t : HammingTopk sh)

/-- The launch of the kernel. -/
def launch : ReadArgs :=
  .launch sh (sh.blockSize * t.maxNumBlockPerSeq) t.maxNumBlockPerSeq t.blockTable t.seqLens

/-- `BLOCK_M`: the tokens of one block of threads. -/
def blockM : Nat := t.launch.elems / sh.words / sh.heads

/-- `smem_popc`: what a thread adds up for its chunk. -/
def smemPopc (thread : Thread) : Nat :=
  match keyRead sh t.launch thread with
  | none => 0
  | some r =>
    ((List.range t.kvGroup).map fun i =>
      popc (t.keys r.element ^^^ t.query thread.batchId (r.head * t.kvGroup + i) r.chunk)).sum

/-- The sum over the chunks for a token and a head. -/
def headSum (batchId pos kv : Nat) : Nat :=
  (List.range sh.words).foldl (fun sum h =>
    half (sum + half (t.smemPopc
      ⟨batchId, pos / t.blockM, (pos % t.blockM * sh.heads + kv) * sh.words + h⟩))) 0

/-- The Hamming distance of a token: `min_sum`, which is the only sum where there is one head. -/
def distance (batchId pos : Nat) : Nat :=
  (List.range sh.heads).foldl (fun minSum kv =>
    if t.headSum batchId pos kv < minSum then t.headSum batchId pos kv else minSum) infinity

/-- `is_sink_or_recent`, of a token of the sequence. -/
def SinkOrRecent (batchId pos : Nat) : Prop :=
  pos < t.sinkToken ∨ t.seqLens batchId ≤ pos + t.recentToken

instance (batchId pos : Nat) : Decidable (t.SinkOrRecent batchId pos) :=
  inferInstanceAs (Decidable (_ ∨ _))

/-- The output of the kernel. -/
def hammingScore (batchId pos : Nat) : Nat :=
  if t.seqLens batchId ≤ pos then infinity
  else if t.SinkOrRecent batchId pos then 0
  else t.distance batchId pos

/-- `block_output`. -/
def blockOutput (batchId block : Nat) : Nat :=
  (List.range sh.blockSize).foldl
    (fun least i => min least (t.hammingScore batchId (block * sh.blockSize + i))) infinity

/-- What `torch.topk` may give. -/
def Topk (batchId : Nat) (ind : List Nat) : Prop :=
  Selection.Smallest (t.blockOutput batchId) t.maxNumBlockPerSeq (t.topkToken / sh.blockSize) ind

instance (batchId : Nat) (ind : List Nat) : Decidable (t.Topk batchId ind) :=
  inferInstanceAs (Decidable (Selection.Smallest _ _ _ _))

/-- The row of the result, given what `torch.topk` gives. -/
def cudaHammingTopk (batchId : Nat) (ind : List Nat) : List Int :=
  (ind.mergeSort fun i j => i ≤ j).map fun i => t.blockTable (batchId * t.maxNumBlockPerSeq + i)

end HammingTopk

/-! ## Reading -/

/-- `update_seq_lens`. -/
def updateSeqLens (seqLens topkToken blockSize : Int) : Int :=
  let dropBlockNum := (max (seqLens - topkToken) 0 + blockSize - 1) / blockSize
  seqLens - dropBlockNum * blockSize

/-- What attention over `seqLen` tokens reads of a row of a block table: all of a block, but of the last
one only what is left, as blocks and offsets. -/
def readRow {α : Type*} (blockSize seqLen : Nat) (row : List α) : List (α × Nat) :=
  let used := (seqLen + blockSize - 1) / blockSize
  ((row.take (used - 1)).flatMap fun b => (List.range blockSize).map fun i => (b, i)) ++
    row[used - 1]?.toList.flatMap fun b =>
      (List.range (seqLen - (used - 1) * blockSize)).map fun i => (b, i)

namespace HammingTopk

variable {sh : Shape} (t : HammingTopk sh)

/-- The length that belongs to the row of the result. -/
def newSeqLen (batchId : Nat) : Nat :=
  (updateSeqLens (t.seqLens batchId) t.topkToken sh.blockSize).toNat

/-- The tokens whose slots are read from the row of the result. -/
def tokensRead (batchId : Nat) (ind : List Nat) : List Nat :=
  (readRow sh.blockSize (t.newSeqLen batchId) (ind.mergeSort fun i j => i ≤ j)).map
    fun (block, i) => block * sh.blockSize + i

/-- What the sparse view is for: tokens of the request in order, the last one, all of every block with a
sink or a recent token, and the whole of a short sequence. -/
structure Exact (batchId : Nat) (tokens : List Nat) : Prop where
  lt : ∀ pos ∈ tokens, pos < t.seqLens batchId
  increasing : tokens.Pairwise (· < ·)
  last : t.seqLens batchId - 1 ∈ tokens
  forced : ∀ pos < t.seqLens batchId, t.SinkOrRecent batchId pos →
    ∀ pos' < t.seqLens batchId, pos' / sh.blockSize = pos / sh.blockSize → pos' ∈ tokens
  all : t.seqLens batchId ≤ t.topkToken → tokens = List.range (t.seqLens batchId)

/-- The number of blocks of a request. -/
def numBlocks (batchId : Nat) : Nat := (t.seqLens batchId + sh.blockSize - 1) / sh.blockSize

/-- The key hash of the token is, for some kv head, the hash of every query. -/
def SameHash (batchId pos : Nat) : Prop :=
  ∃ kv < sh.heads, ∀ h < sh.words,
    ∀ r ∈ keyRead sh t.launch ⟨batchId, pos / t.blockM,
      (pos % t.blockM * sh.heads + kv) * sh.words + h⟩,
    ∀ i < t.kvGroup, t.keys r.element = t.query batchId (r.head * t.kvGroup + i) r.chunk

instance (batchId pos : Nat) : Decidable (t.SameHash batchId pos) :=
  inferInstanceAs (Decidable (∃ kv < sh.heads, ∀ h < sh.words, ∀ r ∈ keyRead sh t.launch _, _))

/-- The distance does not overflow. -/
def Finite (batchId pos : Nat) : Prop := t.distance batchId pos < infinity

instance (batchId pos : Nat) : Decidable (t.Finite batchId pos) :=
  inferInstanceAs (Decidable (_ < _))

/-- The block has a token that is a sink or recent one, or has the property `p`. -/
def HasToken (p : Nat → Prop) (batchId block : Nat) : Prop :=
  ∃ i < sh.blockSize, block * sh.blockSize + i < t.seqLens batchId ∧
    (t.SinkOrRecent batchId (block * sh.blockSize + i) ∨ p (block * sh.blockSize + i))

instance (p : Nat → Prop) [DecidablePred p] (batchId block : Nat) :
    Decidable (t.HasToken p batchId block) :=
  inferInstanceAs (Decidable (∃ i < sh.blockSize, _ ∧ (_ ∨ _)))

/-- Ties do not matter: of a long sequence no more blocks have a sink or a recent token or one with the
hash of the query than are taken. All the same where distances overflow: a short sequence has no block
of which all distances are infinite, and a long one has enough others, unless there is nothing else to
take. -/
def Decided (batchId : Nat) : Prop :=
  if t.seqLens batchId ≤ t.topkToken then
    t.topkToken / sh.blockSize = t.maxNumBlockPerSeq ∨
      ∀ block < t.numBlocks batchId, t.HasToken (t.Finite batchId) batchId block
  else
    (List.range (t.numBlocks batchId)).countP
        (fun block => t.HasToken (t.SameHash batchId) batchId block) ≤
        t.topkToken / sh.blockSize ∧
      (t.numBlocks batchId = t.maxNumBlockPerSeq ∨ t.topkToken / sh.blockSize ≤
        (List.range (t.numBlocks batchId)).countP fun block =>
          t.HasToken (t.Finite batchId) batchId block)

instance (batchId : Nat) : Decidable (t.Decided batchId) :=
  inferInstanceAs (Decidable (ite _ _ _))

end HammingTopk

end UnifiedCache.Gsa
