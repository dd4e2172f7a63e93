import UnifiedCache.Connector.Keys

/-!
# The block hashes of the sparse methods

ESA, KVStar and GSA load blocks that the connector has dumped, so each of them computes the hashes
of a prompt's blocks anew: the chained hash on the scheduler's hasher and, on the other ranks, the
rewriting of a worker. Each does it in its own way.

Pickling is a parameter, as MD5 is.
-/

open Lib UnifiedCache.Connector

namespace UnifiedCache.Sparse

/-- Bytes. -/
abbrev Bytes := List UInt8

/-- A string. -/
abbrev Str := List Char

/-- What a block is chained to. -/
inductive Parent where
  | bytes (b : Bytes)
  | int (n : Nat)
deriving DecidableEq

/-- What a `RequestHasher` is called on. -/
inductive HashInput where
  | bytes (b : Bytes)
  | str (s : Str)
  /-- A pair of the parent and the tokens of a block. -/
  | block (parent : Parent) (tokens : List Token)
deriving DecidableEq

/-- `pickle.dumps(.., protocol=HIGHEST_PROTOCOL)`. -/
abbrev Pickle := HashInput → Bytes

/-- What the sparse methods read of `vllm_config`. -/
structure VllmConfig extends ModelConfig where
  worldSize : Nat
  blockSize : Nat
  pickle : Pickle
  blockSize_pos : 0 < blockSize

namespace VllmConfig

variable (vc : VllmConfig)

/-- `RequestHasher(vllm_config, rank_id)(input_data)`. -/
def hasher (rankId : Nat) : HashInput → Bytes
  | .bytes b => vc.requestHasher rankId b
  | input => vc.requestHasher rankId (vc.pickle input)

/-- `UCM_HASH_SEED`. -/
def seedName : Str := "UCM_HASH_SEED".toList

/-- The scheduler side of `UCMDirectConnector`. -/
def connector : Connector.Config Bytes where
  hashBlockSize := vc.blockSize
  cpWorldSize := 1
  persistTokenThreshold := 0
  requestHasher := fun parent tokens => vc.hasher 0 (.block (.bytes parent) tokens)
  seed := vc.hasher 0 (.str seedName)
  hashBlockSize_pos := vc.blockSize_pos
  cpWorldSize_pos := Nat.one_pos

/-- The ids that the scheduler generates for a prompt. -/
def ucmBlockIds (tokens : List Token) : List Bytes :=
  generateHash vc.connector.requestHasher vc.connector.hashBlockSize tokens vc.connector.seed

/-- The starts of the blocks, `range(0, len(token_ids), block_size)`. -/
def starts (tokens : List Token) : List Nat :=
  (List.range ((tokens.length + vc.blockSize - 1) / vc.blockSize)).map (· * vc.blockSize)

/-- `compute_parent_block_hash`, with `int.from_bytes(.., "big")`. -/
def computeParentBlockHash (seedRank : Nat) : Nat :=
  let metaBytes := (s!"{vc.model}:{vc.worldSize}:{vc.dtype}:{seedRank}").toUTF8.data.toList
  let hSeed := vc.md5 (metaBytes ++ ("UCM_HASH_SEED").toUTF8.data.toList)
  hSeed.foldl (fun n b => n * 256 + b.toNat) 0

/-- The rank whose dumps a rank loads. -/
def dumpRank (rank : Nat) : Nat := if vc.isMla then 0 else rank

/-- The worker dumps what this rank loads. -/
def DumpsFor (rank : Nat) (own : WorkerConfig Bytes) : Prop :=
  vc.IsWorker .direct own ∧ own.tpRank = vc.dumpRank rank

/-- The key is the one under which the connector dumps what has this id on the scheduler, for a rank. -/
structure DumpKey (rank : Nat) (h key : Bytes) : Prop where
  worker : ∃ own, vc.DumpsFor rank own
  dumped : ∀ own, vc.DumpsFor rank own → ∀ e l, h ∈ dumpIds e.metadata →
    l ∈ own.kvCaches.map KvLayer.layerId → ∃ k, DumpsUnder .direct own e h l k
  key_eq : ∀ own, vc.DumpsFor rank own → ∀ e l k, DumpsUnder .direct own e h l k → k.1 = key

/-- The rewriting of an id on a rank. -/
def keyOf (rank : Nat) (h : Bytes) : Bytes :=
  if vc.isMla = true ∨ rank = 0 then h else vc.hasher rank (.bytes h)

end VllmConfig

/-! ## ESA -/

/-- `get_sparse_range`. -/
def getSparseRange (initWindowSz localWindowSz promptLen blockSize : Nat) : Int :=
  let numBlocksUpperBound := (promptLen + blockSize - 1) / blockSize
  (numBlocksUpperBound : Int) - initWindowSz - localWindowSz

/-- `ESA` on a worker, as far as its block hashes go. -/
structure Esa where
  vc : VllmConfig
  rank : Nat
  initWindowSz : Nat
  localWindowSz : Nat

namespace Esa

variable (esa : Esa)

/-- The loop of `set_block_hashes`, with the parent and the hashes so far. -/
def hashLoop (tokens : List Token) : List Nat → Bytes → List Bytes → List Bytes
  | [], _, hashes => hashes
  | start :: starts, parent, hashes =>
    let numTotalBlocks := (tokens.length + esa.vc.blockSize - 1) / esa.vc.blockSize
    let blockIdx := start / esa.vc.blockSize
    if (blockIdx : Int) ≥ numTotalBlocks - esa.localWindowSz then
      hashLoop tokens starts parent hashes
    else
      let block := slice tokens start (start + esa.vc.blockSize)
      if block.length < esa.vc.blockSize then hashes
      else
        let hash := esa.vc.hasher 0 (.block (.bytes parent) block)
        hashLoop tokens starts hash (if blockIdx ≥ esa.initWindowSz then hashes ++ [hash] else hashes)

/-- `set_block_hashes`, on the `block_hashes` of the rank. -/
def setBlockHashes (blockHashes : ReqId → Option (List Bytes)) (id : ReqId) (tokens : List Token) :
    ReqId → Option (List Bytes) :=
  match blockHashes id with
  | some _ => blockHashes
  | none =>
    let hashes := esa.hashLoop tokens (esa.vc.starts tokens)
      (esa.vc.hasher 0 (.str VllmConfig.seedName)) []
    let hashes :=
      if esa.rank ≠ 0 ∧ esa.vc.isMla = false then
        hashes.map fun h => esa.vc.hasher esa.rank (.bytes h)
      else hashes
    Function.update blockHashes id (some hashes)

/-- Calls for requests with their prompts, one after the other. -/
def run (prompt : ReqId → List Token) (calls : List ReqId) : ReqId → Option (List Bytes) :=
  calls.foldl (fun blockHashes id => esa.setBlockHashes blockHashes id (prompt id)) fun _ => none

/-- `get_sparse_range` for a prompt. -/
def sparseRange (tokens : List Token) : Int :=
  getSparseRange esa.initWindowSz esa.localWindowSz tokens.length esa.vc.blockSize

end Esa

/-! ## KVStar -/

/-- A digit of `\\xNN`. -/
def hexDigit (n : Nat) : Char := Char.ofNat (if n < 10 then 48 + n else 87 + n)

/-- How a byte is written between quotes. -/
def byteRepr (quote b : UInt8) : Str :=
  let backslash := Char.ofNat 92
  if b = 9 then [backslash, 't']
  else if b = 10 then [backslash, 'n']
  else if b = 13 then [backslash, 'r']
  else if b = 92 ∨ b = quote then [backslash, Char.ofNat b.toNat]
  else if 32 ≤ b ∧ b < 127 then [Char.ofNat b.toNat]
  else [backslash, 'x', hexDigit (b.toNat / 16), hexDigit (b.toNat % 16)]

/-- `str` of bytes: between apostrophes, or double quotes if there are apostrophes and no double
quotes among them. -/
def bytesStr (b : Bytes) : Str :=
  let quote : UInt8 := if 39 ∈ b ∧ 34 ∉ b then 34 else 39
  ['b', Char.ofNat quote.toNat] ++ b.flatMap (byteRepr quote) ++ [Char.ofNat quote.toNat]

/-- `KVStarMultiStep` on a worker, as far as its block hashes go. Its list holds strings. -/
structure KvStar where
  vc : VllmConfig
  rank : Nat

namespace KvStar

variable (kv : KvStar)

/-- The loop of `set_block_hashes`. -/
def hashLoop (tokens : List Token) : List Nat → Parent → List HashInput
  | [], _ => []
  | start :: starts, parent =>
    let block := slice tokens start (start + kv.vc.blockSize)
    if block.length < kv.vc.blockSize then []
    else
      let hash := kv.vc.hasher 0 (.block parent block)
      .str (bytesStr hash) :: hashLoop tokens starts (.bytes hash)

/-- `set_block_hashes`, on the `block_hashes` of the rank. -/
def setBlockHashes (blockHashes : ReqId → Option (List HashInput)) (id : ReqId)
    (tokens : List Token) : ReqId → Option (List HashInput) :=
  match blockHashes id with
  | some _ => blockHashes
  | none =>
    let hashes := kv.hashLoop tokens (kv.vc.starts tokens) (.int (kv.vc.computeParentBlockHash 0))
    let hashes :=
      if kv.rank ≠ 0 ∧ kv.vc.isMla = false then
        hashes.map fun h => .str (bytesStr (kv.vc.hasher kv.rank h))
      else hashes
    Function.update blockHashes id (some hashes)

/-- Calls for requests with their prompts, one after the other. -/
def run (prompt : ReqId → List Token) (calls : List ReqId) : ReqId → Option (List HashInput) :=
  calls.foldl (fun blockHashes id => kv.setBlockHashes blockHashes id (prompt id)) fun _ => none

end KvStar

/-! ## GSA -/

/-- `GSAReqStat` on a worker, as far as its block hashes go. -/
structure GsaReqStat where
  vc : VllmConfig
  rank : Nat

namespace GsaReqStat

variable (stat : GsaReqStat)

/-- The loop of `set_block_hashes`: what is left of `block_hashes`. The hashes are computed, and only
chained. -/
def hashLoop (tokens : List Token) : List Nat → Parent → List HashInput → List HashInput
  | [], _, hashes => hashes
  | start :: starts, parent, hashes =>
    let block := slice tokens start (start + stat.vc.blockSize)
    if block.length < stat.vc.blockSize then hashes
    else
      let hash := stat.vc.hasher 0 (.block parent block)
      hashLoop tokens starts (.bytes hash) hashes

/-- `set_block_hashes`, on `block_hashes`. -/
def setBlockHashes (blockHashes : Option (List HashInput)) (tokens : List Token) :
    List HashInput :=
  match blockHashes with
  | some hashes => hashes
  | none =>
    let hashes := stat.hashLoop tokens (stat.vc.starts tokens)
      (.int (stat.vc.computeParentBlockHash 0)) []
    if stat.rank ≠ 0 ∧ stat.vc.isMla = false then
      hashes.map fun h => .str (bytesStr (stat.vc.hasher stat.rank h))
    else hashes

/-- Calls for one request with its prompt, one after the other. -/
def run (tokens : List Token) (calls : Nat) : Option (List HashInput) :=
  (List.range calls).foldl (fun blockHashes _ => some (stat.setBlockHashes blockHashes tokens)) none

end GsaReqStat

/-- There is an entry for each full block of the prompt, and it is the key under which the connector
dumps the block for the rank. -/
structure AgreesWithConnector (vc : VllmConfig) (rank : Nat) (tokens : List Token)
    (hashes : List HashInput) : Prop where
  length : hashes.length = tokens.length / vc.blockSize
  keys : ∀ (i : Nat) h, (vc.ucmBlockIds tokens)[i]? = some h →
    ∃ key, hashes[i]? = some (.bytes key) ∧ vc.DumpKey rank h key

/-- Two ranks and blocks of two tokens. MD5 gives the bytes themselves, and a block is pickled to its
tokens. -/
def VllmConfig.small : VllmConfig where
  model := "m"
  dtype := "torch.bfloat16"
  tpSize := 2
  isMla := false
  md5 := id
  worldSize := 2
  blockSize := 2
  pickle := fun
    | .block _ tokens => tokens.map UInt8.ofNat
    | _ => []
  blockSize_pos := Nat.two_pos

end UnifiedCache.Sparse
