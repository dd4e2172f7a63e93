import Mathlib.Algebra.BigOperators.Group.List.Basic
import UnifiedCache.Gsa.DecodeTopk
import UnifiedCache.Gsa.Proofs.HammingTopkProofs
import UnifiedCache.Gsa.Proofs.KeyHashCacheProofs
import UnifiedCache.Gsa.Proofs.SparseMetaProofs

/-!
# Proofs: the block tables of a batch in sparse decoding

Between two layers the tables are the full ones again, and only the rows of the requests that decode
have ever been written. So a call writes to each of these rows what `cuda_hamming_topk` finds for it,
and that depends on the row, its length, the hashes in its blocks, and the query with the number of the
row. This is the query of the request if and only if all requests before it have one token.
-/

open Lib

namespace UnifiedCache.Gsa.OnDevice

/-! ## A row -/

section Row

variable {sh : Shape} {t t' : HammingTopk sh} {batchId batchId' pos : Nat}

theorem keyRead_pos {args : ReadArgs} {M kv h : Nat} (hM : args.elems / sh.words / sh.heads = M)
    (hkv : kv < sh.heads) (hh : h < sh.words) {r : Read}
    (hr : keyRead sh args ⟨batchId, pos / M, (pos % M * sh.heads + kv) * sh.words + h⟩ = some r) :
    r.pos = pos := by
  have hword : ((pos % M * sh.heads + kv) * sh.words + h) / sh.words = pos % M * sh.heads + kv :=
    Strides.mul_add_div_of_lt hh
  have hhead : (pos % M * sh.heads + kv) / sh.heads = pos % M :=
    Strides.mul_add_div_of_lt hkv
  simp only [keyRead, hM, hword, hhead] at hr
  split at hr
  · split at hr
    · obtain rfl := Option.some.inj hr
      exact Nat.div_add_mod' pos M
    · cases hr
  · cases hr

/-- What the two calls have in common for a row of each. -/
structure SameRow (t t' : HammingTopk sh) (batchId batchId' : Nat) : Prop where
  width : t.maxNumBlockPerSeq = t'.maxNumBlockPerSeq
  kvGroup : t.kvGroup = t'.kvGroup
  sinkToken : t.sinkToken = t'.sinkToken
  recentToken : t.recentToken = t'.recentToken
  seqLens : t.seqLens batchId = t'.seqLens batchId'
  blockTable : ∀ i < t.maxNumBlockPerSeq, t.blockTable (batchId * t.maxNumBlockPerSeq + i) =
    t'.blockTable (batchId' * t.maxNumBlockPerSeq + i)
  query : t.query batchId = t'.query batchId'
  keys : ∀ pos < t.seqLens batchId, pos / sh.blockSize < t.maxNumBlockPerSeq →
    ∀ word < sh.heads * sh.blockSize * sh.words, ∀ element : Int,
      element = t.blockTable (batchId * t.maxNumBlockPerSeq + pos / sh.blockSize) *
        (sh.heads * sh.blockSize * sh.words : Nat) + (word : Int) → t.keys element = t'.keys element

namespace SameRow

variable (h : SameRow t t' batchId batchId')

include h

theorem keyRead_eq (block tid : Nat) : keyRead sh t.launch ⟨batchId, block, tid⟩ =
    keyRead sh t'.launch ⟨batchId', block, tid⟩ := by
  have hrow := h.blockTable
  rw [h.width] at hrow
  have hentry : ∀ i, (if i < t'.maxNumBlockPerSeq then
        t.blockTable (batchId * t'.maxNumBlockPerSeq + i) else 0) =
      if i < t'.maxNumBlockPerSeq then
        t'.blockTable (batchId' * t'.maxNumBlockPerSeq + i) else 0 := by
    intro i
    split_ifs with hi
    · exact hrow i hi
    · rfl
  simp only [keyRead, HammingTopk.launch, ReadArgs.launch, hentry, h.seqLens, h.width]
  rfl

theorem smemPopc_eq (hfits : sh.heads * sh.blockSize * sh.words < int32Limit)
    (hpos : pos < t.seqLens batchId) (hcolumn : pos / sh.blockSize < t.maxNumBlockPerSeq)
    {kv chunk : Nat} (hkv : kv < sh.heads) (hchunk : chunk < sh.words) :
    t.smemPopc ⟨batchId, pos / t.blockM, (pos % t.blockM * sh.heads + kv) * sh.words + chunk⟩ =
      t'.smemPopc
        ⟨batchId', pos / t.blockM, (pos % t.blockM * sh.heads + kv) * sh.words + chunk⟩ := by
  have hread := h.keyRead_eq (pos / t.blockM)
    ((pos % t.blockM * sh.heads + kv) * sh.words + chunk)
  unfold HammingTopk.smemPopc
  rw [← hread]
  cases hr : keyRead sh t.launch
    ⟨batchId, pos / t.blockM, (pos % t.blockM * sh.heads + kv) * sh.words + chunk⟩ with
  | none => rfl
  | some r =>
    obtain ⟨hhead, hword, helement⟩ := keyRead_spec hr
    have hrpos := keyRead_pos rfl hkv hchunk hr
    rw [hrpos] at helement
    have hlt : (r.head * sh.blockSize + pos % sh.blockSize) * sh.words + r.chunk <
        sh.heads * sh.blockSize * sh.words :=
      Strides.mul_add_lt (Strides.mul_add_lt hhead (Nat.mod_lt _ sh.blockSize_pos)) hword
    have hplace := helement hcolumn
    rw [i32_of_lt hfits, i32_of_lt (hlt.trans hfits)] at hplace
    have hkey := h.keys pos hpos hcolumn _ hlt _ hplace
    dsimp only
    rw [hkey, h.kvGroup, h.query]

/-- **The score of a block** is the same. -/
theorem blockOutput_eq (hfits : sh.heads * sh.blockSize * sh.words < int32Limit) {block : Nat}
    (hblock : block < t.maxNumBlockPerSeq) :
    t.blockOutput batchId block = t'.blockOutput batchId' block := by
  have hscore : ∀ i < sh.blockSize, t.hammingScore batchId (block * sh.blockSize + i) =
      t'.hammingScore batchId' (block * sh.blockSize + i) := by
    intro i hi
    have hdiv : (block * sh.blockSize + i) / sh.blockSize = block :=
      Strides.mul_add_div_of_lt hi
    generalize block * sh.blockSize + i = pos at hdiv ⊢
    have hforced : t.SinkOrRecent batchId pos ↔ t'.SinkOrRecent batchId' pos := by
      rw [HammingTopk.SinkOrRecent, HammingTopk.SinkOrRecent, h.sinkToken, h.recentToken, h.seqLens]
    unfold HammingTopk.hammingScore
    simp only [hforced, ← h.seqLens]
    by_cases hlen : t.seqLens batchId ≤ pos
    · rw [if_pos hlen, if_pos hlen]
    · have hsum : ∀ kv ∈ List.range sh.heads,
          t.headSum batchId pos kv = t'.headSum batchId' pos kv := by
        intro kv hkv
        refine List.foldl_ext _ _ _ fun sum chunk hchunk => ?_
        rw [h.smemPopc_eq hfits (Nat.lt_of_not_le hlen) (by rwa [hdiv]) (List.mem_range.mp hkv)
          (List.mem_range.mp hchunk)]
        rfl
      have hdistance : t.distance batchId pos = t'.distance batchId' pos :=
        List.foldl_ext _ _ _ fun least kv hkv => by rw [hsum kv hkv]
      rw [hdistance]
  refine List.foldl_ext _ _ _ fun least i hi => ?_
  rw [hscore i (List.mem_range.mp hi)]

end SameRow

end Row

/-! ## The new row -/

section NewRow

variable {sh : Shape} {Q : Type} {g : GqaConfig sh Q}

theorem GqaConfig.topkBlocks_le (g : GqaConfig sh Q) : g.topkBlocks ≤ g.width :=
  Nat.div_le_of_le_mul g.topk_le

/-- **A new row** is the same where the two calls agree on its request. -/
theorem SameRow.newRow_eq {t t' : HammingTopk sh} {batchId batchId' : Nat}
    (h : SameRow t t' batchId batchId') (hwidth : t.maxNumBlockPerSeq = g.width)
    (htopk : TopkSpec g.topk) (hfits : sh.heads * sh.blockSize * sh.words < int32Limit) :
    g.newRow t batchId = g.newRow t' batchId' := by
  have hscores : (List.range g.width).map (t.blockOutput batchId) =
      (List.range g.width).map (t'.blockOutput batchId') := by
    refine List.map_congr_left fun block hblock => h.blockOutput_eq hfits ?_
    rw [hwidth]
    exact List.mem_range.mp hblock
  unfold GqaConfig.newRow
  dsimp only
  rw [← hscores]
  generalize hind : g.topk ((List.range g.width).map (t.blockOutput batchId)) g.topkBlocks = ind
  have hlt : ∀ i ∈ ind, i < g.width := by
    have hsmallest := htopk ((List.range g.width).map (t.blockOutput batchId)) g.topkBlocks (by
      rw [List.length_map, List.length_range]
      exact g.topkBlocks_le)
    rw [hind, List.length_map, List.length_range] at hsmallest
    exact hsmallest.lt
  have hrow : t.cudaHammingTopk batchId ind = t'.cudaHammingTopk batchId' ind := by
    refine List.map_congr_left fun i hi => ?_
    have hi := hlt i (List.mem_mergeSort.mp hi)
    rw [← h.width, h.blockTable i (by rwa [hwidth])]
  rw [hrow]

end NewRow

/-! ## Writing rows -/

section Write

variable {α : Type*} {value : Nat → α} {rows : List Nat}

theorem length_writeRows (xs : List α) (rows : List Nat) (value : Nat → α) :
    (writeRows xs rows value).length = xs.length := by
  induction rows generalizing xs with
  | nil => rfl
  | cons row rows ih =>
    rw [writeRows, List.foldl_cons, ← writeRows, ih, List.length_set]

theorem getElem?_writeRows_of_notMem {i : Nat} (xs : List α) (hi : i ∉ rows) :
    (writeRows xs rows value)[i]? = xs[i]? := by
  induction rows generalizing xs with
  | nil => rfl
  | cons row rows ih =>
    rw [List.mem_cons, not_or] at hi
    rw [writeRows, List.foldl_cons, ← writeRows, ih _ hi.2, List.getElem?_set_ne (Ne.symm hi.1)]

theorem getElem?_writeRows_of_mem {i : Nat} {xs : List α} (hi : i ∈ rows) (hlt : i < xs.length) :
    (writeRows xs rows value)[i]? = some (value i) := by
  induction rows generalizing xs with
  | nil => exact absurd hi List.not_mem_nil
  | cons row rows ih =>
    rw [writeRows, List.foldl_cons, ← writeRows]
    by_cases hin : i ∈ rows
    · exact ih hin (by rwa [List.length_set])
    · obtain rfl : i = row := (List.mem_cons.mp hi).resolve_right hin
      rw [getElem?_writeRows_of_notMem _ hin, List.getElem?_set_self hlt]

end Write

/-! ## Layers -/

section Layers

variable {sh : Shape} {Q : Type} {g : GqaConfig sh Q} {d : Device} {numReqs : Nat}
  {m : SparseMeta} {attn topk : AttnTables}

/-- The rows that are written. -/
def Device.rows (d : Device) : List Nat :=
  if d.decodeOnly then List.range d.numReqs else d.decodeReqIds

/-- Before and after a layer: the tables in `attn_metadata` are the full ones, and other rows than those
of requests that decode have never been written. -/
structure Between (d₀ d : Device) : Prop where
  numReqs : d.numReqs = d₀.numReqs
  rows : d.rows = d₀.rows
  topkSeqLens : d.topkSeqLens = d₀.topkSeqLens
  attn : d.attn = d₀.ori
  ori : d.ori = d₀.ori
  blockTable_length : d.new.blockTable.length = d₀.ori.blockTable.length
  seqLens_length : d.new.seqLens.length = d₀.ori.seqLens.length
  blockTable : ∀ row ∉ d₀.rows, d.new.blockTable[row]? = d₀.ori.blockTable[row]?
  seqLens : ∀ row ∉ d₀.rows, d.new.seqLens[row]? = d₀.ori.seqLens[row]?

theorem between_prepare : Between (g.prepareCudaDecodeSparseMeta numReqs m attn topk)
    (g.prepareCudaDecodeSparseMeta numReqs m attn topk) :=
  ⟨rfl, rfl, rfl, rfl, rfl, rfl, rfl, fun _ _ => rfl, fun _ _ => rfl⟩

/-- **A layer** ends as it has begun. -/
theorem Between.runLayer {d₀ : Device} (h : Between d₀ d) (layer : Layer sh Q) :
    Between d₀ (g.runLayer d layer) := by
  cases layer with
  | rollback => exact h
  | skip =>
    exact ⟨h.numReqs, h.rows, h.topkSeqLens, h.ori, h.ori, h.blockTable_length, h.seqLens_length,
      h.blockTable, h.seqLens⟩
  | hash query keys =>
    refine ⟨h.numReqs, h.rows, h.topkSeqLens, h.ori, h.ori, ?_, ?_, fun row hrow => ?_,
      fun row hrow => ?_⟩
    · exact (length_writeRows _ _ _).trans h.blockTable_length
    · exact (length_writeRows _ _ _).trans h.seqLens_length
    · rw [← h.blockTable row hrow]
      exact getElem?_writeRows_of_notMem _ (by rw [← h.rows] at hrow; exact hrow)
    · rw [← h.seqLens row hrow]
      exact getElem?_writeRows_of_notMem _ (by rw [← h.rows] at hrow; exact hrow)

theorem Between.foldl {d₀ : Device} (h : Between d₀ d) (layers : List (Layer sh Q)) :
    Between d₀ (layers.foldl g.runLayer d) := by
  induction layers generalizing d with
  | nil => exact h
  | cons layer layers ih => exact ih (h.runLayer layer)

end Layers

/-! ## A step -/

namespace Step

variable {sh : Shape} {Q : Type} {g : GqaConfig sh Q} {x x' : Step g} {row row' : Nat}

theorem decodeReqIds_eq (x : Step g) : x.sparseMeta.decodeReqIds = x.batch.decodeRows x.batch.order := by
  obtain ⟨cfg, tables, slotBuf, idBuf, hrun⟩ := x.sparseMeta_eq
  have := run_decodeReqIds (pending_order x.batch _) hrun
  rwa [List.nil_append] at this

/-- Before the first layer. -/
def start (x : Step g) : Device :=
  g.prepareCudaDecodeSparseMeta x.batch.requests.length x.sparseMeta x.attn x.topk

/-- **The rows that are written** are those of the requests that decode. -/
theorem mem_rows (x : Step g) : row ∈ x.start.rows ↔ x.batch.Decodes row := by
  have hmem : row ∈ x.batch.decodeRows x.batch.order ↔ x.batch.Decodes row := by
    rw [Batch.decodeRows, List.mem_filter, decide_eq_true_eq, x.batch.order_perm.mem_iff,
      List.mem_range]
    rfl
  rw [← hmem, ← decodeReqIds_eq, Device.rows]
  split_ifs with honly
  · have honly : 0 < x.sparseMeta.decodeReqIds.length ∧
        x.sparseMeta.decodeReqIds.length = x.batch.requests.length := of_decide_eq_true honly
    have hall : x.batch.decodeRows x.batch.order = x.batch.order := by
      refine List.filter_eq_self.mpr (List.length_filter_eq_length_iff.mp ?_)
      rw [← Batch.decodeRows, ← decodeReqIds_eq, honly.2, x.batch.order_perm.length_eq,
        List.length_range]
    rw [decodeReqIds_eq, hall, x.batch.order_perm.mem_iff]
    rfl
  · rfl

theorem between (x : Step g) : Between x.start x.device :=
  between_prepare.foldl x.layers

/-- The call of `cuda_hamming_topk`. -/
def hamming (x : Step g) : HammingTopk sh :=
  g.hamming x.batch.requests.length x.query x.keys x.attn

/-- **Other rows** are those of the full tables. -/
theorem result_other (x : Step g) (h : ¬ x.batch.Decodes row) :
    x.result row = (x.attn.blockTable[row]?, x.attn.seqLens[row]?) := by
  have hrow : row ∉ x.start.rows := fun hc => h (x.mem_rows.mp hc)
  have hrow' : row ∉ x.device.rows := by rwa [x.between.rows]
  refine Prod.ext ?_ ?_
  · exact (getElem?_writeRows_of_notMem _ hrow').trans (x.between.blockTable row hrow)
  · exact (getElem?_writeRows_of_notMem _ hrow').trans (x.between.seqLens row hrow)

/-- **The row of a request that decodes** is what `cuda_hamming_topk` finds. -/
theorem result_decode (x : Step g) (h : x.batch.Decodes row) :
    x.result row = (some (g.newRow x.hamming row), some (x.hamming.newSeqLen row)) := by
  have hrow : row ∈ x.device.rows := by
    rw [x.between.rows]
    exact x.mem_rows.mpr h
  have hlen : row < x.seqLens.length := by
    rw [x.seqLens_length]
    exact h.1
  have hcall : g.hamming x.device.numReqs x.query x.keys x.device.attn = x.hamming := by
    rw [x.between.numReqs, x.between.attn]
    rfl
  have hnew : x.start.topkSeqLens.getD row 0 = x.hamming.newSeqLen row := by
    have hsome : x.seqLens[row]? = some x.seqLens[row] := List.getElem?_eq_getElem hlen
    have hseqLen : x.hamming.seqLens row = x.seqLens[row] := by
      show x.seqLens.getD row 0 = _
      rw [List.getD_eq_getElem?_getD, hsome]
      rfl
    have hmap : x.start.topkSeqLens = x.seqLens.map fun (seqLen : Nat) =>
        (updateSeqLens seqLen g.hashTopkTokens sh.blockSize).toNat := rfl
    rw [HammingTopk.newSeqLen, hseqLen, List.getD_eq_getElem?_getD, hmap, List.getElem?_map, hsome]
    rfl
  refine Prod.ext ?_ ?_
  · refine (getElem?_writeRows_of_mem hrow ?_).trans ?_
    · rw [x.between.blockTable_length]
      exact h.1.trans_eq (List.length_map _).symm
    · rw [hcall]
  · refine (getElem?_writeRows_of_mem hrow ?_).trans ?_
    · rw [x.between.seqLens_length]
      exact hlen
    · rw [x.between.topkSeqLens, hnew]

end Step

/-! ## Isolation -/

section Isolation

variable {sh : Shape} {Q : Type} {g : GqaConfig sh Q} {x x' : Step g} {row row' : Nat}

theorem hamming_blockTable (x : Step g) (row : Nat) {i : Nat} (hi : i < g.width) :
    x.hamming.blockTable (row * g.width + i) = (x.attn.blockTable.getD row []).getD i 0 := by
  show (x.attn.blockTable.getD ((row * g.width + i) / g.width) []).getD
    ((row * g.width + i) % g.width) 0 = _
  rw [Strides.mul_add_div_of_lt hi, Nat.mul_add_mod_of_lt hi]

theorem hamming_query (x : Step g) (h : row < x.batch.requests.length) (head chunk : Nat) :
    x.hamming.query row head chunk =
      (x.query[row]?.map fun q => g.hashCode q head chunk).getD 0 := by
  show ((x.query.take _)[row]?.map _).getD 0 = _
  rw [List.getElem?_take_of_lt h]

theorem length_row (x : Step g) (h : row < x.batch.requests.length) :
    (x.attn.blockTable.getD row []).length = g.width := by
  have hrow : x.attn.blockTable[row]? = some x.batch.requests[row].blockTable := by
    show (x.batch.requests.map _)[row]? = _
    rw [List.getElem?_map, List.getElem?_eq_getElem h]
    rfl
  rw [List.getD_eq_getElem?_getD, hrow]
  exact x.width _ (List.getElem_mem h)

/-- **Two calls agree on a request** if its own query is the one with the number of its row. -/
theorem SameOwn.sameRow (h : SameOwn x x' row row') (hrow : row < x.batch.requests.length)
    (hrow' : row' < x'.batch.requests.length) (hstart : x.batch.queryStartLoc row = row)
    (hstart' : x'.batch.queryStartLoc row' = row') : SameRow x.hamming x'.hamming row row' := by
  have hseqLens : x.seqLens.getD row 0 = x'.seqLens.getD row' 0 := by
    rw [List.getD_eq_getElem?_getD, List.getD_eq_getElem?_getD, h.seqLens]
  have htable : x.attn.blockTable.getD row [] = x'.attn.blockTable.getD row' [] := by
    rw [List.getD_eq_getElem?_getD, List.getD_eq_getElem?_getD, h.blockTable]
  have hquery := h.query
  rw [hstart, hstart'] at hquery
  refine ⟨rfl, rfl, rfl, rfl, hseqLens, fun i hi => ?_, ?_, ?_⟩
  · refine (hamming_blockTable x row hi).trans ?_
    rw [htable]
    exact (hamming_blockTable x' row' hi).symm
  · funext head chunk
    rw [hamming_query x hrow, hamming_query x' hrow', hquery]
  · intro pos hpos hcolumn word hword element helement
    have hlt : pos / sh.blockSize < (x.attn.blockTable.getD row []).length := by
      rw [length_row x hrow]
      exact hcolumn
    refine h.keys element ⟨pos, hpos, (x.attn.blockTable.getD row [])[pos / sh.blockSize],
      List.getElem?_eq_getElem hlt, word, hword, helement.trans ?_⟩
    have hentry := hamming_blockTable x row hcolumn
    rw [List.getD_eq_getElem?_getD, List.getElem?_eq_getElem hlt, Option.getD_some] at hentry
    rw [← hentry]
    rfl

/-- **Isolation**, where the own queries are the ones with the numbers of the rows. -/
theorem result_eq (htopk : TopkSpec g.topk) (hfits : sh.heads * sh.blockSize * sh.words < int32Limit)
    (hdec : x.batch.Decodes row) (hdec' : x'.batch.Decodes row')
    (hstart : x.batch.queryStartLoc row = row) (hstart' : x'.batch.queryStartLoc row' = row')
    (h : SameOwn x x' row row') : x.result row = x'.result row' := by
  have hsame := h.sameRow hdec.1 hdec'.1 hstart hstart'
  have hlen : x.hamming.newSeqLen row = x'.hamming.newSeqLen row' := by
    rw [HammingTopk.newSeqLen, HammingTopk.newSeqLen, hsame.seqLens]
    rfl
  rw [x.result_decode hdec, x'.result_decode hdec', hsame.newRow_eq rfl htopk hfits, hlen]

theorem SameLayout.queryStartLoc {b b' : Batch} (h : SameLayout b b') (row : Nat) :
    b'.queryStartLoc row = b.queryStartLoc row := by
  rw [Batch.queryStartLoc, Batch.queryStartLoc, List.map_take, List.map_take, h.queryLens]

theorem SameLayout.decodes {b b' : Batch} (h : SameLayout b b') (hdec : b.Decodes row) :
    b'.Decodes row := by
  have hlen := congrArg List.length h.queryLens
  rw [List.length_map, List.length_map] at hlen
  exact ⟨by rw [← hlen]; exact hdec.1, by rw [← h.isPrefillFlag]; exact hdec.2⟩

theorem isolated_of {b b' : Batch} (hdec : b.Decodes row) (hdec' : b'.Decodes row')
    (hstart : b.queryStartLoc row = row) (hstart' : b'.queryStartLoc row' = row') :
    Isolated b b' row row' := by
  intro sh Q g htopk hfits x x' hx hx' hown
  exact result_eq htopk hfits (hx.decodes hdec) (hx'.decodes hdec')
    ((hx.queryStartLoc row).trans hstart) ((hx'.queryStartLoc row').trans hstart') hown

end Isolation

/-! ## What other queries can spoil -/

section Spoil

variable {b b' : Batch} {row row' : Nat}

/-- The layout of a batch, with this block table for all requests and no prefixes from outside. -/
def Batch.withTable (b : Batch) (table : List Int) : Batch where
  requests := b.requests.map fun req => { req with extTokens := 0, blockTable := table }
  order := b.order
  isPrefillFlag := b.isPrefillFlag
  order_perm := by rw [List.length_map]; exact b.order_perm
  scheduled_pos := List.forall_mem_map.mpr fun req hreq => b.scheduled_pos req hreq

theorem sameLayout_withTable (b : Batch) (table : List Int) : SameLayout b (b.withTable table) where
  queryLens := by
    rw [Batch.withTable, List.map_map]
    rfl
  order := rfl
  isPrefillFlag := rfl

theorem hits_withTable (b : Batch) (table : List Int) : (b.withTable table).hits = [] := by
  refine List.filterMap_eq_nil_iff.mpr fun row _ => ?_
  rw [Option.filter_eq_none_iff]
  intro req hreq hhit
  obtain ⟨req', -, rfl⟩ := List.mem_map.mp (List.mem_of_getElem? hreq)
  exact absurd (of_decide_eq_true hhit).2 (Nat.lt_irrefl 0)

theorem isSome_buildSparseMeta (hhits : b.hits = []) (cfg : Config) :
    (buildSparseMeta cfg (.gqa (b.requests.map Request.blockTable)) b [] []).isSome := by
  have hrows : b.hitsOf b.order = [] := hhits
  obtain ⟨m, hrun⟩ : ∃ m, buildSparseMeta cfg (.gqa (b.requests.map Request.blockTable)) b [] [] =
      some m := by
    refine exists_run (fun _ _ hreq => getBlockTableRow_gqa hreq _) (pending_order b _)
      (fun req hreq => ?_) (packed_clear cfg [] []) ?_ ?_
    · rw [hrows] at hreq
      exact absurd hreq List.not_mem_nil
    · rw [hrows]
      exact Nat.le_refl 0
    · rw [hrows]
      exact Nat.le_refl 0
  rw [hrun]
  rfl

theorem Shape.single_pos : 0 < 1 ∧ 0 < 1 ∧ 0 < (keyType 4).2 := by decide

theorem Shape.single_lt : 1 < int32Limit ∧ 1 < int32Limit ∧ (keyType 4).2 < int32Limit := by decide

/-- Blocks of one token of one head, with hashes of 128 bits. -/
def Shape.single : Shape := .ofNumChunk 1 1 4 Shape.single_pos Shape.single_lt

/-- Queries with two hashes, and six of seven tokens to be read. -/
def GqaConfig.six : GqaConfig Shape.single Bool where
  hashCode q _ _ := if q then BitVec.allOnes _ else 0
  topk row k := Selection.smallest (fun i => row.getD i 0) row.length k
  width := 7
  hashTopkTokens := 6
  topk_mod := rfl
  topk_gt := by decide
  topk_le := by decide

theorem GqaConfig.six_topk : TopkSpec GqaConfig.six.topk := fun _ _ hk =>
  Selection.smallest_spec _ hk

/-- The keys of block 2 have the one hash, all others the other one. -/
def sixKeys (element : Int) : BitVec (8 * Shape.single.type.size) :=
  if element / 2 = 2 then BitVec.allOnes _ else 0

/-- A request of seven tokens alone. -/
def sixAlone (q : Bool) : HammingTopk Shape.single :=
  GqaConfig.six.hamming 1 [q] sixKeys ⟨[[0, 1, 2, 3, 4, 5, 6]], [7]⟩

/-- The blocks that are taken. -/
def sixBlocks (q : Bool) : List Nat := if q then [0, 2, 3, 4, 5, 6] else [0, 1, 3, 4, 5, 6]

theorem topk_sixAlone (q : Bool) : GqaConfig.six.topk
    ((List.range GqaConfig.six.width).map ((sixAlone q).blockOutput 0)) GqaConfig.six.topkBlocks =
      sixBlocks q := by
  cases q <;> decide +kernel

theorem newRow_sixAlone (q : Bool) : GqaConfig.six.newRow (sixAlone q) 0 =
    ((sixBlocks q).map fun i => (i : Int)) ++ [0] := by
  have hsorted : ((sixBlocks q).mergeSort fun i j => i ≤ j) = sixBlocks q :=
    List.mergeSort_of_pairwise (by cases q <;> decide)
  unfold GqaConfig.newRow HammingTopk.cudaHammingTopk
  dsimp only
  rw [topk_sixAlone, hsorted]
  cases q <;> decide +kernel

theorem newRow_sixAlone_inj {q q' : Bool}
    (h : GqaConfig.six.newRow (sixAlone q) 0 = GqaConfig.six.newRow (sixAlone q') 0) : q = q' := by
  rw [newRow_sixAlone, newRow_sixAlone] at h
  revert h
  revert q q'
  decide

/-- The step of a batch in which all requests have seven tokens, and queries as given. -/
def sixStep (b : Batch) (f : Nat → Bool) : Step GqaConfig.six where
  batch := b.withTable [0, 1, 2, 3, 4, 5, 6]
  sparseMeta := (buildSparseMeta ⟨1, 7, 1, Nat.one_pos⟩
    (.gqa ((b.withTable [0, 1, 2, 3, 4, 5, 6]).requests.map Request.blockTable))
    (b.withTable [0, 1, 2, 3, 4, 5, 6]) [] []).get
      (isSome_buildSparseMeta (hits_withTable b _) _)
  seqLens := List.replicate b.requests.length 7
  topk := ⟨[], []⟩
  layers := []
  query := (List.range (b.queryStartLoc b.requests.length)).map f
  keys := sixKeys
  sparseMeta_eq := ⟨_, _, _, _, (Option.some_get _).symm⟩
  width := List.forall_mem_map.mpr fun _ _ => rfl
  seqLens_length := List.length_replicate.trans (List.length_map _).symm
  query_length := by
    rw [List.length_map, List.length_range, (sameLayout_withTable b _).queryStartLoc,
      Batch.withTable, List.length_map]

theorem le_queryStartLoc (b : Batch) (h : row ≤ b.requests.length) : row ≤ b.queryStartLoc row := by
  have hsum := List.length_le_sum_of_one_le ((b.requests.take row).map Request.numScheduledTokens)
    (List.forall_mem_map.mpr fun req hreq => b.scheduled_pos req (List.mem_of_mem_take hreq))
  rw [List.length_map, List.length_take, Nat.min_eq_left h] at hsum
  exact hsum

theorem queryStartLoc_lt (b : Batch) (h : row < b.requests.length) :
    b.queryStartLoc row < b.queryStartLoc b.requests.length := by
  have hsplit : b.requests = b.requests.take row ++ b.requests[row] :: b.requests.drop (row + 1) := by
    rw [← List.drop_eq_getElem_cons h, List.take_append_drop]
  have hpos := b.scheduled_pos b.requests[row] (List.getElem_mem h)
  have htotal : b.queryStartLoc b.requests.length =
      b.queryStartLoc row + (b.requests[row].numScheduledTokens +
        ((b.requests.drop (row + 1)).map Request.numScheduledTokens).sum) := by
    rw [Batch.queryStartLoc, List.take_of_length_le (Nat.le_refl _)]
    conv_lhs => rw [hsplit]
    rw [List.map_append, List.sum_append, List.map_cons, List.sum_cons]
    rfl
  omega

theorem getElem?_query (b : Batch) (f : Nat → Bool) {i : Nat}
    (hi : i < b.queryStartLoc b.requests.length) : (sixStep b f).query[i]? = some (f i) := by
  show ((List.range _).map f)[i]? = _
  rw [List.getElem?_map, List.getElem?_range hi]
  rfl

theorem sixStep_tables (b : Batch) (f : Nat → Bool) (h : row < b.requests.length) :
    (sixStep b f).attn.blockTable[row]? = some [0, 1, 2, 3, 4, 5, 6] ∧
      (sixStep b f).seqLens[row]? = some 7 := by
  constructor
  · show ((b.withTable [0, 1, 2, 3, 4, 5, 6]).requests.map Request.blockTable)[row]? = _
    rw [Batch.withTable, List.map_map, List.getElem?_map, List.getElem?_eq_getElem h]
    rfl
  · show (List.replicate b.requests.length 7)[row]? = _
    rw [List.getElem?_replicate, if_pos h]

/-- **What comes out** goes by the query with the number of the row. -/
theorem sixStep_result (f : Nat → Bool) (h : b.Decodes row) :
    (sixStep b f).result row = (some (GqaConfig.six.newRow (sixAlone (f row)) 0), some 6) := by
  have hdec : (sixStep b f).batch.Decodes row := (sameLayout_withTable b _).decodes h
  obtain ⟨htable, hseqLen⟩ := sixStep_tables b f h.1
  have hquery := getElem?_query b f
    ((le_queryStartLoc b h.1.le).trans_lt (queryStartLoc_lt b h.1))
  have hlen : (sixStep b f).hamming.seqLens row = 7 := by
    show (sixStep b f).seqLens.getD row 0 = 7
    rw [List.getD_eq_getElem?_getD, hseqLen]
    rfl
  have hsame : SameRow (sixStep b f).hamming (sixAlone (f row)) row 0 := by
    refine ⟨rfl, rfl, rfl, rfl, hlen, fun i hi => ?_, ?_, fun _ _ _ _ _ _ _ => rfl⟩
    · refine (hamming_blockTable (sixStep b f) row hi).trans ?_
      have hrow : (sixStep b f).attn.blockTable.getD row [] = [0, 1, 2, 3, 4, 5, 6] := by
        rw [List.getD_eq_getElem?_getD, htable]
        rfl
      rw [hrow, Nat.zero_mul, Nat.zero_add]
      have hi : i < 7 := hi
      show _ = ([[0, 1, 2, 3, 4, 5, 6]].getD (i / 7) []).getD (i % 7) 0
      rw [Nat.div_eq_of_lt hi, Nat.mod_eq_of_lt hi]
      rfl
    · funext head chunk
      rw [hamming_query _ hdec.1, hquery]
      rfl
  have hnew : (sixStep b f).hamming.newSeqLen row = 6 := by
    rw [HammingTopk.newSeqLen, hlen]
    rfl
  rw [Step.result_decode _ hdec, hsame.newRow_eq rfl GqaConfig.six_topk (by decide), hnew]

theorem sixStep_sameOwn {f f' : Nat → Bool} (h : row < b.requests.length)
    (h' : row' < b'.requests.length) (hf : f (b.queryStartLoc row) = f' (b'.queryStartLoc row')) :
    SameOwn (sixStep b f) (sixStep b' f') row row' := by
  obtain ⟨htable, hseqLen⟩ := sixStep_tables b f h
  obtain ⟨htable', hseqLen'⟩ := sixStep_tables b' f' h'
  refine ⟨?_, htable.trans htable'.symm, hseqLen.trans hseqLen'.symm, fun _ _ => rfl⟩
  show (sixStep b f).query[(b.withTable _).queryStartLoc row]? =
    (sixStep b' f').query[(b'.withTable _).queryStartLoc row']?
  rw [(sameLayout_withTable b _).queryStartLoc, (sameLayout_withTable b' _).queryStartLoc,
    getElem?_query b f (queryStartLoc_lt b h), getElem?_query b' f' (queryStartLoc_lt b' h'), hf]

/-- **Isolation needs** that the queries of the requests are those with the numbers of their rows. -/
theorem of_isolated (hdec : b.Decodes row) (hdec' : b'.Decodes row')
    (h : Isolated b b' row row') : b.queryStartLoc row = row ∧ b'.queryStartLoc row' = row' := by
  have hsame : ∀ f f' : Nat → Bool, f (b.queryStartLoc row) = f' (b'.queryStartLoc row') →
      f row = f' row' := by
    intro f f' hf
    have hresult := h GqaConfig.six GqaConfig.six_topk (by decide) (sixStep b f) (sixStep b' f')
      (sameLayout_withTable b _) (sameLayout_withTable b' _) (sixStep_sameOwn hdec.1 hdec'.1 hf)
    rw [sixStep_result f hdec, sixStep_result f' hdec'] at hresult
    exact newRow_sixAlone_inj (Option.some.inj (Prod.mk.inj hresult).1)
  constructor
  · have hfalse : decide (row ≠ b.queryStartLoc row) = false :=
      hsame (fun i => decide (i ≠ b.queryStartLoc row)) (fun _ => false) (by simp)
    exact (not_not.mp (of_decide_eq_false hfalse)).symm
  · have hfalse : false = decide (row' ≠ b'.queryStartLoc row') :=
      hsame (fun _ => false) (fun i => decide (i ≠ b'.queryStartLoc row')) (by simp)
    exact (not_not.mp (of_decide_eq_false hfalse.symm)).symm

end Spoil

/-- A request that decodes and one with a prompt of two tokens, in this order or the other one. -/
def Batch.mixed (decodeFirst : Bool) : Batch where
  requests :=
    if decodeFirst then [⟨1, 6, 3, 0, []⟩, ⟨2, 0, 2, 0, []⟩] else [⟨2, 0, 2, 0, []⟩, ⟨1, 6, 3, 0, []⟩]
  order := [0, 1]
  isPrefillFlag row := if row = (if decodeFirst then 0 else 1) then some false else none
  order_perm := by cases decodeFirst <;> exact .refl _
  scheduled_pos := by cases decodeFirst <;> decide

end UnifiedCache.Gsa.OnDevice
