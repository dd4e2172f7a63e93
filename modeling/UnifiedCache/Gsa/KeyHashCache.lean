import UnifiedCache.Lib.Strides

/-!
# The key-hash cache of GSA on a device

Every token has the hash of its key for every kv head in a paged cache of the shape (blocks,
block_size, H, W). A Triton kernel, `fused_hash_and_cache_kernel`, writes it byte by byte with the
strides of the tensor; a CUDA kernel, `HammingScoreContiKernel`, reads it word by word from where it
works out itself.

What is modelled of the kernels is where they write and read: one lane or thread at a time, with the
masks and bounds they check. The offsets within a block are computed in `int32_t` by the CUDA kernel
and wrap; other numbers stay below the length of the sequence or the size of the tensor.
-/

open Lib

namespace UnifiedCache.Gsa

/-- The type `T` of the words that the CUDA kernel reads. -/
inductive KeyType where
  | int32
  | int64
deriving DecidableEq, Repr

/-- How many `bfloat16` make a word. -/
def KeyType.bfloat16s : KeyType → Nat
  | .int32 => 2
  | .int64 => 4

/-- `sizeof(T)`. -/
def KeyType.size (t : KeyType) : Nat := t.bfloat16s * 2

/-- The first number that is no `int32_t`. -/
def int32Limit : Nat := 2147483648

/-- The shape of the cache but for the number of blocks, in words of type `T`. -/
structure Shape where
  blockSize : Nat
  /-- `NumKVHead`. -/
  heads : Nat
  /-- `NumChunk`. -/
  words : Nat
  type : KeyType
  blockSize_pos : 0 < blockSize
  heads_pos : 0 < heads
  words_pos : 0 < words
  blockSize_lt : blockSize < int32Limit
  heads_lt : heads < int32Limit
  words_lt : words < int32Limit

namespace Shape

variable (sh : Shape)

/-- `hash_numbers`: the bytes of a hash. -/
def bytes : Nat := sh.words * sh.type.size

/-- `initialize_kv_hash_cache_tensors`: the shape of the tensor of `bfloat16`, which is contiguous. -/
def khashCacheShape (blocks : Nat) : List Nat :=
  [blocks, sh.blockSize, sh.heads, sh.words * sh.type.bfloat16s]

/-- `_reinterpret_cache_as_u8`: the strides `stride_cb`, `stride_cs`, `stride_ch`, `stride_cw`. -/
def u8Strides (blocks : Nat) : List Nat :=
  Strides.splitStrides 2 (Strides.contiguous (sh.khashCacheShape blocks))

end Shape

/-! ## The writer -/

/-- The arguments of `fused_hash_and_cache_kernel`, which `compute_hash_and_cache` checks. -/
structure StoreArgs where
  /-- The blocks of the cache. -/
  blocks : Nat
  /-- `T`: the number of tokens. -/
  tokens : Nat
  slotMapping : Nat → Int
  blockM : Nat
  blockN : Nat
  blockM_pos : 0 < blockM
  blockN_pos : 0 < blockN
  blockN_mod : blockN % 8 = 0

/-- A program of the grid, and a lane of its tile. -/
structure Lane where
  pidM : Nat
  pidN : Nat
  pidH : Nat
  row : Nat
  col : Nat
deriving DecidableEq, Repr

/-- A byte that is written: of which slot, head and byte of the hash, and where. -/
structure Store where
  slot : Int
  head : Nat
  byte : Nat
  address : Nat
deriving DecidableEq, Repr

/-- `offs_m`: the token of the lane. -/
def Lane.offsM (lane : Lane) (args : StoreArgs) : Nat := lane.pidM * args.blockM + lane.row

/-- `offs_byte`: the byte of the hash. -/
def Lane.offsByte (lane : Lane) (args : StoreArgs) : Nat :=
  lane.pidN * (args.blockN / 8) + lane.col

variable (sh : Shape)

/-- `fused_hash_and_cache_kernel`, one lane. -/
def fusedStore (args : StoreArgs) (lane : Lane) : Option Store :=
  let nBytes := sh.bytes
  let nBits := 8 * nBytes
  if ¬(lane.row < args.blockM ∧ lane.col < args.blockN / 8 ∧ lane.pidH < sh.heads) then none
  else if args.tokens ≤ lane.pidM * args.blockM then none
  else if nBits ≤ lane.pidN * args.blockN then none
  else
    let mMask := lane.offsM args < args.tokens
    let slot := if mMask then args.slotMapping (lane.offsM args) else -1
    let validSlot := 0 ≤ slot ∧ slot < args.blocks * sh.blockSize
    let outMask := (mMask ∧ validSlot) ∧ lane.offsByte args < nBytes
    let safeSlot := if mMask ∧ validSlot then slot.toNat else 0
    let b := safeSlot / sh.blockSize
    let s := safeSlot % sh.blockSize
    if outMask then
      some ⟨slot, lane.pidH, lane.offsByte args,
        Strides.offset (sh.u8Strides args.blocks) [b, s, lane.pidH, lane.offsByte args]⟩
    else none

/-! ## The reader -/

/-- The arguments of `HammingScoreContiKernel`; the rows of the block table follow each other. -/
structure ReadArgs where
  numThreads : Nat
  elems : Nat
  seq : Nat
  blockTable : Nat → Int
  maxNumBlockPerSeq : Nat
  seqLen : Nat → Nat

/-- A thread of the grid. -/
structure Thread where
  batchId : Nat
  blockId : Nat
  tid : Nat
deriving DecidableEq, Repr

/-- A word that is read: for which token, head and chunk, and where, counted in words. -/
structure Read where
  pos : Nat
  head : Nat
  chunk : Nat
  element : Int
deriving DecidableEq, Repr

/-- An `int32_t` after an operation that wraps. -/
def i32 (x : Nat) : Int := Int.bmod x UInt32.size

/-- `HammingScoreContiKernel`, one thread. -/
def keyRead (args : ReadArgs) (thread : Thread) : Option Read :=
  let blockM := args.elems / sh.words / sh.heads
  let actualSeqLen := args.seqLen thread.batchId
  let blockStartM := thread.blockId * blockM
  let leftM := min blockM (args.seq - blockStartM)
  let leftElem := leftM * sh.heads * sh.words
  if thread.tid < args.numThreads ∧ thread.tid < leftElem then
    let kvHeadId := thread.tid / sh.words % sh.heads
    let kvChunkId := thread.tid % sh.words
    let tokenInBlockIdx := thread.tid / sh.words / sh.heads
    let tokenGlobalM := blockStartM + tokenInBlockIdx
    let blockSlot := tokenGlobalM / sh.blockSize
    let offsetInBlock := tokenGlobalM % sh.blockSize
    let blockIdFromTable :=
      if blockSlot < args.maxNumBlockPerSeq then
        args.blockTable (thread.batchId * args.maxNumBlockPerSeq + blockSlot)
      else 0
    if blockStartM < actualSeqLen then
      some ⟨tokenGlobalM, kvHeadId, kvChunkId,
        blockIdFromTable * i32 (sh.heads * sh.blockSize * sh.words) +
          i32 ((kvHeadId * sh.blockSize + offsetInBlock) * sh.words + kvChunkId)⟩
    else none
  else none

/-- `HammingScoreContiCUDA`: `T` and `NumChunk` for so many `int32` words. -/
def keyType (numChunk : Nat) : KeyType × Nat :=
  if numChunk % 2 = 0 then (.int64, numChunk / 2) else (.int32, numChunk)

/-- The shape that the kernel is launched with for so many `int32` words. -/
def Shape.ofNumChunk (blockSize heads numChunk : Nat)
    (hpos : 0 < blockSize ∧ 0 < heads ∧ 0 < (keyType numChunk).2)
    (hlt : blockSize < int32Limit ∧ heads < int32Limit ∧ (keyType numChunk).2 < int32Limit) :
    Shape where
  blockSize := blockSize
  heads := heads
  words := (keyType numChunk).2
  type := (keyType numChunk).1
  blockSize_pos := hpos.1
  heads_pos := hpos.2.1
  words_pos := hpos.2.2
  blockSize_lt := hlt.1
  heads_lt := hlt.2.1
  words_lt := hlt.2.2

/-- `HammingScoreContiCUDA`: the launch of the kernel. -/
def ReadArgs.launch (seq maxNumBlockPerSeq : Nat) (blockTable : Nat → Int) (seqLen : Nat → Nat) :
    ReadArgs where
  numThreads := 512
  elems := sh.heads * sh.words * (512 / (sh.heads * sh.words))
  seq := seq
  blockTable := blockTable
  maxNumBlockPerSeq := maxNumBlockPerSeq
  seqLen := seqLen

/-- Whatever is read for a token of the sequence is the element that is written for its slot. -/
def ReadsWritten : Prop :=
  ∀ (args : StoreArgs) (lane : Lane) (st : Store) (rargs : ReadArgs) (thread : Thread) (r : Read),
    fusedStore sh args lane = some st → keyRead sh rargs thread = some r →
    r.pos < rargs.seqLen thread.batchId → r.pos / sh.blockSize < rargs.maxNumBlockPerSeq →
    st.slot = rargs.blockTable (thread.batchId * rargs.maxNumBlockPerSeq + r.pos / sh.blockSize) *
      sh.blockSize + r.pos % sh.blockSize →
    st.head = r.head → st.byte / sh.type.size = r.chunk →
    (st.address / sh.type.size : Nat) = r.element

end UnifiedCache.Gsa
