import UnifiedCache.Gsa.HammingTopk
import UnifiedCache.Gsa.SparseMeta

/-!
# The block tables of a batch in sparse decoding

GSA on a device replaces the block table and the lengths that attention reads, layer by layer. After
`build_sparse_meta` there are copies of both to go back to. `update_decode_topk_gqa_cuda` hashes the
queries, takes the best blocks of every row with `cuda_hamming_topk` and writes the rows of the requests
that decode, all at once if there are no others. Layers may use what the last one has found, or stay with
the full tables.

The hash of a query and `torch.topk` on a row are parameters.
-/

open Lib

namespace UnifiedCache.Gsa.OnDevice

/-- `block_table` and `seq_lens`. -/
structure AttnTables where
  blockTable : List (List Int)
  seqLens : List Nat
deriving DecidableEq, Repr

/-- What the engine is set up with, and the assertions of `cuda_hamming_topk`. -/
structure GqaConfig (sh : Shape) (Q : Type) where
  /-- `hash_code`, of a query, by head and chunk. -/
  hashCode : Q → Nat → Nat → BitVec (8 * sh.type.size)
  /-- `torch.topk(row, k, largest=False)`, the indices. -/
  topk : List Nat → Nat → List Nat
  /-- `block_table.shape[1]`. -/
  width : Nat
  hashTopkTokens : Nat
  topk_mod : hashTopkTokens % sh.blockSize = 0
  topk_gt : sh.blockSize + sh.blockSize * 4 < hashTopkTokens
  topk_le : hashTopkTokens ≤ sh.blockSize * width

/-- `torch.topk` gives the places of some `k` smallest values. -/
def TopkSpec (topk : List Nat → Nat → List Nat) : Prop :=
  ∀ (row : List Nat) (k : Nat), k ≤ row.length →
    Selection.Smallest (fun i => row.getD i 0) row.length k (topk row k)

/-- A layer, which may take the tables of the last one or the full ones. -/
inductive Layer (sh : Shape) (Q : Type) where
  | rollback
  | skip
  | hash (query : List Q) (keys : Int → BitVec (8 * sh.type.size))

/-- What of the engine and of `attn_metadata` changes or is read in a layer. -/
structure Device where
  numReqs : Nat
  decodeOnly : Bool
  decodeReqIds : List Nat
  /-- `topk_seq_lens_qwen`. -/
  topkSeqLens : List Nat
  /-- The tables in `attn_metadata`. -/
  attn : AttnTables
  /-- `ori_block_table_decode` and `ori_seq_lens_decode`. -/
  ori : AttnTables
  /-- `new_block_table` and `new_seq_lens`. -/
  new : AttnTables
  /-- `topk_block_table` and `topk_seq_lens`. -/
  topk : AttnTables
deriving DecidableEq, Repr

/-- The rows of a tensor with these numbers are assigned. -/
def writeRows {α : Type*} (xs : List α) (rows : List Nat) (value : Nat → α) : List α :=
  rows.foldl (fun xs row => xs.set row (value row)) xs

namespace GqaConfig

variable {sh : Shape} {Q : Type} (g : GqaConfig sh Q)

/-- The call of `cuda_hamming_topk`. Of the query there is the hash of one head for each kv head. -/
def hamming (numReqs : Nat) (query : List Q) (keys : Int → BitVec (8 * sh.type.size))
    (attn : AttnTables) : HammingTopk sh where
  keys := keys
  query batchId head chunk :=
    ((query.take numReqs)[batchId]?.map fun q => g.hashCode q head chunk).getD 0
  kvGroup := 1
  blockTable i := (attn.blockTable.getD (i / g.width) []).getD (i % g.width) 0
  maxNumBlockPerSeq := g.width
  seqLens batchId := attn.seqLens.getD batchId 0
  topkToken := g.hashTopkTokens
  sinkToken := sh.blockSize
  recentToken := sh.blockSize * 4
  topk_mod := g.topk_mod
  recent_pos := Nat.mul_pos sh.blockSize_pos (by decide)
  topk_gt := g.topk_gt
  topk_le := g.topk_le

/-- The number of blocks that are taken: `block_table_decode.shape[1]`. -/
def topkBlocks : Nat := g.hashTopkTokens / sh.blockSize

/-- A row of the new block table: the blocks that are taken, and zeros. -/
def newRow (t : HammingTopk sh) (batchId : Nat) : List Int :=
  let blockOutput := (List.range g.width).map (t.blockOutput batchId)
  (t.cudaHammingTopk batchId (g.topk blockOutput g.topkBlocks)).take g.topkBlocks ++
    List.replicate (g.width - g.topkBlocks) 0

/-- `prepare_cuda_decode_sparse_meta`, after the loop of `build_sparse_meta`. -/
def prepareCudaDecodeSparseMeta (numReqs : Nat) (m : SparseMeta) (attn topk : AttnTables) :
    Device where
  numReqs := numReqs
  decodeOnly := 0 < m.decodeReqIds.length ∧ m.decodeReqIds.length = numReqs
  decodeReqIds := m.decodeReqIds
  topkSeqLens := attn.seqLens.map fun (seqLen : Nat) =>
    (updateSeqLens seqLen g.hashTopkTokens sh.blockSize).toNat
  attn := attn
  ori := attn
  new := attn
  topk := topk

/-- `update_decode_topk_gqa_cuda`. -/
def updateDecodeTopkGqaCuda (query : List Q) (keys : Int → BitVec (8 * sh.type.size)) (d : Device) :
    Device :=
  let t := g.hamming d.numReqs query keys d.attn
  let rows := if d.decodeOnly then List.range d.numReqs else d.decodeReqIds
  let new : AttnTables := {
    blockTable := writeRows d.new.blockTable rows (g.newRow t)
    seqLens := writeRows d.new.seqLens rows fun row => d.topkSeqLens.getD row 0 }
  { d with attn := new, new := new, topk := new }

/-- `attention_begin`, with a request that decodes. -/
def attentionBegin (d : Device) : Layer sh Q → Device
  | .rollback => d
  | .skip => { d with attn := d.topk }
  | .hash query keys => g.updateDecodeTopkGqaCuda query keys d

/-- `attention_finished`. -/
def attentionFinished (d : Device) : Layer sh Q → Device
  | .rollback => d
  | .skip | .hash _ _ => { d with attn := d.ori }

/-- A layer from its begin to its end. -/
def runLayer (d : Device) (layer : Layer sh Q) : Device :=
  attentionFinished (g.attentionBegin d layer) layer

end GqaConfig

/-! ## Isolation -/

/-- A step of a batch up to a call of `update_decode_topk_gqa_cuda`. -/
structure Step {sh : Shape} {Q : Type} (g : GqaConfig sh Q) where
  batch : Batch
  sparseMeta : SparseMeta
  seqLens : List Nat
  /-- What earlier steps have left. -/
  topk : AttnTables
  /-- The layers before. -/
  layers : List (Layer sh Q)
  query : List Q
  keys : Int → BitVec (8 * sh.type.size)
  sparseMeta_eq : ∃ cfg tables slotBuf idBuf,
    buildSparseMeta cfg tables batch slotBuf idBuf = some sparseMeta
  width : ∀ req ∈ batch.requests, req.blockTable.length = g.width
  seqLens_length : seqLens.length = batch.requests.length
  query_length : batch.queryStartLoc batch.requests.length ≤ query.length

namespace Step

variable {sh : Shape} {Q : Type} {g : GqaConfig sh Q} (x : Step g)

/-- The tables of the requests. -/
def attn : AttnTables := ⟨x.batch.requests.map Request.blockTable, x.seqLens⟩

/-- After the layers before. -/
def device : Device :=
  x.layers.foldl g.runLayer
    (g.prepareCudaDecodeSparseMeta x.batch.requests.length x.sparseMeta x.attn x.topk)

/-- The tables after the call. -/
def after : AttnTables := (g.updateDecodeTopkGqaCuda x.query x.keys x.device).attn

/-- The row and the length of a request. -/
def result (row : Nat) : Option (List Int) × Option Nat :=
  (x.after.blockTable[row]?, x.after.seqLens[row]?)

/-- The words of the hash cache that are in a block of the request. -/
def Own (row : Nat) (element : Int) : Prop :=
  ∃ pos < x.seqLens.getD row 0, ∃ block ∈ (x.attn.blockTable.getD row [])[pos / sh.blockSize]?,
    ∃ word < sh.heads * sh.blockSize * sh.words,
      element = block * (sh.heads * sh.blockSize * sh.words : Nat) + (word : Int)

end Step

/-- The request has the same query token, block table, length and hashes of its blocks. -/
structure SameOwn {sh : Shape} {Q : Type} {g : GqaConfig sh Q} (x x' : Step g) (row row' : Nat) :
    Prop where
  query : x.query[x.batch.queryStartLoc row]? = x'.query[x'.batch.queryStartLoc row']?
  blockTable : x.attn.blockTable[row]? = x'.attn.blockTable[row']?
  seqLens : x.seqLens[row]? = x'.seqLens[row']?
  keys : ∀ element, x.Own row element → x.keys element = x'.keys element

/-- The row is of a request that decodes. -/
def Batch.Decodes (b : Batch) (row : Nat) : Prop :=
  row < b.requests.length ∧ b.isPrefillFlag row = some false

instance (b : Batch) (row : Nat) : Decidable (b.Decodes row) := inferInstanceAs (Decidable (_ ∧ _))

/-- The same requests as far as their number, order, query lengths and states go. -/
structure SameLayout (b b' : Batch) : Prop where
  queryLens : b.requests.map Request.numScheduledTokens = b'.requests.map Request.numScheduledTokens
  order : b.order = b'.order
  isPrefillFlag : b.isPrefillFlag = b'.isPrefillFlag

/-- What comes out for a request depends on nothing but itself, in all batches with one of the two
layouts. -/
def Isolated (b b' : Batch) (row row' : Nat) : Prop :=
  ∀ {sh : Shape} {Q : Type} (g : GqaConfig sh Q), TopkSpec g.topk →
    sh.heads * sh.blockSize * sh.words < int32Limit →
    ∀ x x' : Step g, SameLayout b x.batch → SameLayout b' x'.batch → SameOwn x x' row row' →
      x.result row = x'.result row'

end UnifiedCache.Gsa.OnDevice
