import UnifiedCache.Gsa.Proofs.BlocksProofs
import UnifiedCache.Lib.Selection
import UnifiedCache.Sparse.Blend

/-!
# Proofs: which tokens a blend layer keeps

A request is a stretch of the mask. Where it has chunks, the stretch is written with what is kept of it,
and the length of the request becomes the number of these tokens, so that the requests follow each other
in the pruned batch as they did before. The last token of a request is among them unless it lies in a
block that was loaded and is not among those that differ most.
-/

open Lib.Masks Lib.Selection

namespace UnifiedCache.Sparse.Blend

open Connector (ChunkMetaData VllmBlock)

variable {η α β ω σ : Type} {cfg : Config}

/-! ## Tensors -/

theorem fillTrue_append (pre mid post : List Bool) :
    fillTrue (pre ++ (mid ++ post)) pre.length (pre.length + mid.length) =
      pre ++ (List.replicate mid.length true ++ post) := by
  refine List.ext_getElem (by simp [fillTrue]) fun i hi hi' => ?_
  simp only [fillTrue, List.getElem_mapIdx, List.getElem_append, List.length_replicate,
    List.getElem_replicate]
  grind

theorem length_fillTrue (x : List Bool) (start stop : Nat) :
    (fillTrue x start stop).length = x.length := List.length_mapIdx

variable {γ : Type}

theorem reshape_eq (d : γ) {x : List γ} {n w : Nat} (h : x.length = n * w) :
    reshape x n w =
      some ((List.range n).map fun j => (List.range w).map fun i => x.getD (j * w + i) d) := by
  unfold reshape
  rw [if_pos h]
  congr 1
  refine List.map_congr_left fun j hj => take_drop_eq_map d ?_
  have hj : (j + 1) * w ≤ n * w := Nat.mul_le_mul_right _ (List.mem_range.mp hj)
  rw [Nat.succ_mul] at hj
  omega

theorem index_eq {x : List γ} {mask : List Bool} (h : x.length = mask.length) :
    index x mask = some (keep x mask) := if_pos h

theorem foldl_set_true (sel : List Nat) (n : Nat) (p : Nat → Bool) :
    sel.foldl (fun (l : List Bool) i => l.set i true) ((List.range n).map p) =
      (List.range n).map fun t => p t || sel.contains t := by
  induction sel generalizing p with
  | nil => simp
  | cons i sel ih =>
    have hset : ((List.range n).map p).set i true = (List.range n).map fun t => p t || t == i := by
      refine List.ext_getElem (by simp) fun t ht ht' => ?_
      rw [List.getElem_set, List.getElem_map, List.getElem_map, List.getElem_range]
      by_cases hti : i = t
      · simp [hti]
      · simp [hti, Ne.symm hti]
    rw [List.foldl_cons, hset, ih]
    refine List.map_congr_left fun t _ => ?_
    rw [List.contains_cons, Bool.or_assoc]

theorem le_roundUp (n : Nat) {w : Nat} (hw : 0 < w) : n ≤ roundUp n w := by
  have hlt : n + w - 1 < ((n + w - 1) / w + 1) * w := by
    rw [← Nat.div_lt_iff_lt_mul hw]
    exact Nat.lt_succ_self _
  rw [Nat.succ_mul] at hlt
  unfold roundUp
  omega

theorem mapM_getElem? (d : γ) (x : List γ) {l : List Nat} (h : ∀ i ∈ l, i < x.length) :
    l.mapM (fun i => x[i]?) = some (l.map (x.getD · d)) := by
  induction l with
  | nil => rfl
  | cons i l ih =>
    have hi : i < x.length := h i List.mem_cons_self
    rw [List.mapM_cons, ih fun j hj => h j (List.mem_cons_of_mem _ hj),
      List.getElem?_eq_getElem hi, List.map_cons, List.getD_eq_getElem _ _ hi]
    rfl

/-- **The mask of a request with chunks.** What is missed and what is selected is kept, and all that
comes after the chunks. -/
theorem updateReqComputeMask_eq {m : BlendMetaData} {pre post hits : List Bool} {sel : List Nat}
    {w n : Nat} (hw : 0 < w) (hpos : 0 < hits.length) (hn : hits.length * w ≤ n)
    (hmask : m.computeMask = pre ++ (List.replicate n false ++ post))
    (hsel : ∀ i ∈ sel, i < hits.length * w) :
    m.updateReqComputeMask pre.length (pre.length + hits.length * w) (pre.length + n) hits sel =
      some { m with
        computeMask := pre ++
          ((List.range n).map (fun t => !hits.getD (t / w) false || sel.contains t) ++ post) } := by
  obtain ⟨k, rfl⟩ := Nat.exists_eq_add_of_le hn
  rw [List.replicate_add, List.append_assoc] at hmask
  have hchunks : (m.computeMask.take (pre.length + hits.length * w)).drop pre.length =
      List.replicate (hits.length * w) false := by
    rw [hmask, List.take_length_add_append, List.drop_append_length,
      List.take_left' List.length_replicate]
  have hwidth : (List.replicate (hits.length * w) false).length / hits.length = w := by
    rw [List.length_replicate, Nat.mul_div_cancel_left w hpos]
  have hempty : ∀ i, (List.replicate (hits.length * w) false).getD i false = false := by
    intro i
    rw [List.getD_eq_getElem?_getD, List.getElem?_getD_replicate_default_eq]
  have hflat : (List.zipWith (fun hit row => row.map fun b => if hit then b else true) hits
      ((List.range hits.length).map fun j => (List.range w).map fun i =>
        (List.replicate (hits.length * w) false).getD (j * w + i) false)).flatten =
      (List.range (hits.length * w)).map fun t => !hits.getD (t / w) false := by
    rw [flatten_zipWith_rows]
    refine List.map_congr_left fun t _ => ?_
    rw [hempty]
    cases hits.getD (t / w) false <;> rfl
  have hdrop : m.computeMask.drop (pre.length + hits.length * w) = List.replicate k false ++ post := by
    rw [hmask, List.drop_length_add_append, List.drop_left' List.length_replicate]
  have hafter : ∀ i, hits.getD ((hits.length * w + i) / w) false = false := by
    intro i
    rw [List.getD_eq_default]
    rw [Nat.le_div_iff_mul_le hw]
    exact Nat.le_add_right _ _
  unfold BlendMetaData.updateReqComputeMask
  dsimp only
  rw [hchunks, hwidth, reshape_eq false List.length_replicate, Option.bind_eq_bind, Option.bind_some,
    hflat, if_neg, foldl_set_true, List.length_map, List.length_range, hdrop, hmask,
    List.take_append_length]
  · have hfill := fillTrue_append
      (pre ++ (List.range (hits.length * w)).map fun t => !hits.getD (t / w) false || sel.contains t)
      (List.replicate k false) post
    rw [List.length_append, List.length_map, List.length_range, List.length_replicate] at hfill
    rw [← Nat.add_assoc, hfill, List.range_add, List.map_append, List.map_map]
    have hsuffix : ((List.range k).map
        ((fun t => !hits.getD (t / w) false || sel.contains t) ∘ (hits.length * w + ·))) =
        List.replicate k true := by
      rw [List.eq_replicate_iff, List.length_map, List.length_range]
      refine ⟨rfl, fun b hb => ?_⟩
      obtain ⟨i, -, rfl⟩ := List.mem_map.mp hb
      show (!hits.getD ((hits.length * w + i) / w) false || _) = true
      rw [hafter]
      rfl
    rw [hsuffix, List.append_assoc, List.append_assoc]
  · rintro ⟨i, hi, hle⟩
    rw [List.length_map, List.length_range] at hle
    exact Nat.not_lt.mpr hle (hsel i hi)

theorem modify_append (f : γ → γ) (l : List γ) (x : γ) (rest : List γ) :
    (l ++ x :: rest).modify l.length f = l ++ f x :: rest := by
  induction l with
  | nil => exact List.modify_zero_cons f x rest
  | cons y l ih =>
    rw [List.cons_append, List.length_cons, List.modify_succ_cons, ih]
    rfl

/-! ## A request -/

namespace NewReq

variable (r : NewReq cfg η)

/-- Which blocks of its chunks were loaded. -/
def hits : List Bool := r.chunksMeta.flatMap ChunkMetaData.storeHits

/-- The token is of a block that was loaded. -/
def hit (t : Nat) : Bool := r.hits.getD (t / cfg.blockSize) false

/-- The tokens of the blocks that were loaded. -/
def hitTokens : List Nat := (List.range r.queryLen).filter r.hit

/-- How much the key that was loaded for a token differs from the computed one, where the request starts
at place `s` of the batch. -/
def keyDiff (kCache : VllmBlock → Nat → List ℚ) (key : List (List ℚ)) (s t : Nat) : ℚ :=
  let position := r.prefixBlks * cfg.blockSize + t
  rowDiff (kCache (r.blocks.getD (position / cfg.blockSize) 0) (position % cfg.blockSize))
    (key.getD (s + t) [])

/-- How many tokens of the loaded blocks are computed on. -/
def topKNum (ratio : ℚ) : Nat := ⌊(r.hitTokens.length : ℚ) * ratio⌋₊

/-- The tokens of the loaded blocks that are computed on. -/
def selected (topk : TopK) (kCache : VllmBlock → Nat → List ℚ) (key : List (List ℚ)) (ratio : ℚ)
    (s : Nat) : List Nat :=
  (topk (r.hitTokens.map (r.keyDiff kCache key s)) (r.topKNum ratio)).map (r.hitTokens.getD · 0)

variable {r}

theorem hitTokens_eq :
    r.hitTokens = (List.range (r.hits.length * cfg.blockSize)).filter r.hit := by
  have hle : r.hits.length * cfg.blockSize ≤ r.queryLen := r.chunks_le
  have hbeyond : ∀ n, ((List.range n).map (r.hits.length * cfg.blockSize + ·)).filter r.hit = [] := by
    intro n
    rw [List.filter_eq_nil_iff]
    intro t ht
    obtain ⟨i, -, rfl⟩ := List.mem_map.mp ht
    have hdiv : r.hits.length ≤ (r.hits.length * cfg.blockSize + i) / cfg.blockSize := by
      rw [Nat.le_div_iff_mul_le cfg.blockSize_pos]
      exact Nat.le_add_right _ _
    unfold hit
    rw [List.getD_eq_default _ _ hdiv]
    exact Bool.false_ne_true
  unfold hitTokens
  rw [← Nat.add_sub_cancel' hle, List.range_add, List.filter_append, hbeyond, List.append_nil]

theorem length_hitTokens : r.hitTokens.length = r.hits.count true * cfg.blockSize := by
  rw [hitTokens_eq]
  exact length_filter_rows r.hits cfg.blockSize

theorem nodup_hitTokens : r.hitTokens.Nodup := List.nodup_range.filter _

theorem mem_hitTokens {t : Nat} : t ∈ r.hitTokens ↔ t < r.queryLen ∧ r.hit t = true := by
  rw [hitTokens, List.mem_filter, List.mem_range]

/-! ### What is compared -/

variable {kCache : VllmBlock → Nat → List ℚ} {key : List (List ℚ)} {s : Nat}

theorem hits_cover : r.prefixBlks + r.hits.length ≤ r.blocks.length := by
  have hle : r.hits.length * cfg.blockSize ≤ r.queryLen := r.chunks_le
  have hcover := r.blocks_cover
  apply Nat.le_of_mul_le_mul_right _ cfg.blockSize_pos
  rw [Nat.add_mul]
  omega

theorem flatMap_his :
    (keep (Gsa.Blocks.slice r.blocks (r.prefixBlks : Nat) ((r.prefixBlks : Nat) + (r.hits.length : Nat) : Int))
        r.hits).flatMap (fun v => (List.range cfg.blockSize).map (kCache v)) =
      r.hitTokens.map fun t => kCache (r.blocks.getD (r.prefixBlks + t / cfg.blockSize) 0)
        (t % cfg.blockSize) := by
  have hslice : Gsa.Blocks.slice r.blocks (r.prefixBlks : Nat)
      ((r.prefixBlks : Nat) + (r.hits.length : Nat) : Int) =
      (List.range r.hits.length).map fun j => r.blocks.getD (r.prefixBlks + j) 0 := by
    rw [← Nat.cast_add, Gsa.Blocks.slice_natCast, List.drop_take, Nat.add_sub_cancel_left,
      take_drop_eq_map 0 hits_cover]
  rw [hslice, List.flatMap_def, ← keep_map, List.map_map, hitTokens_eq]
  exact flatten_keep_rows (fun j i => kCache (r.blocks.getD (r.prefixBlks + j) 0) i) r.hits

theorem flatten_golden (hkey : s + r.queryLen ≤ key.length) :
    ∃ rows, reshape ((key.take (s + r.hits.length * cfg.blockSize)).drop s) r.hits.length
        cfg.blockSize = some rows ∧ rows.length = r.hits.length ∧
      (keep rows r.hits).flatten = r.hitTokens.map fun t => key.getD (s + t) [] := by
  have hle : r.hits.length * cfg.blockSize ≤ r.queryLen := r.chunks_le
  have hlen : ((key.take (s + r.hits.length * cfg.blockSize)).drop s).length =
      r.hits.length * cfg.blockSize := by
    rw [List.length_drop, List.length_take]
    omega
  refine ⟨_, reshape_eq [] hlen, ?_, ?_⟩
  · rw [List.length_map, List.length_range]
  · rw [flatten_keep_rows, hitTokens_eq]
    refine List.map_congr_left fun t ht => ?_
    have ht := List.mem_range.mp (List.mem_filter.mp ht).1
    rw [Nat.div_add_mod', List.drop_take, Nat.add_sub_cancel_left, take_drop_eq_map [] (by omega),
      List.getD_eq_getElem _ _ (by simpa using ht), List.getElem_map, List.getElem_range]

theorem flatten_places (hmax : r.hits.length * cfg.blockSize ≤ cfg.maxModelLen) :
    ((maskIdx cfg).take r.hits.length).length = r.hits.length ∧
      (keep ((maskIdx cfg).take r.hits.length) r.hits).flatten = r.hitTokens := by
  have hrows : r.hits.length ≤ roundUp cfg.maxModelLen cfg.blockSize / cfg.blockSize := by
    rw [Nat.le_div_iff_mul_le cfg.blockSize_pos]
    exact hmax.trans (le_roundUp cfg.maxModelLen cfg.blockSize_pos)
  have htake : (maskIdx cfg).take r.hits.length = (List.range r.hits.length).map fun j =>
      (List.range cfg.blockSize).map fun i => j * cfg.blockSize + i := by
    unfold maskIdx
    rw [← List.map_take, List.take_range, Nat.min_eq_left hrows]
    exact List.map_congr_left fun j _ => List.range'_eq_map_range
  rw [htake, flatten_keep_rows, hitTokens_eq]
  refine ⟨?_, ?_⟩
  · rw [List.length_map, List.length_range]
  · conv_rhs => rw [← List.map_id ((List.range _).filter _)]
    refine List.map_congr_left fun t _ => ?_
    exact Nat.div_add_mod' t cfg.blockSize

theorem keyDiff_eq (t : Nat) : r.keyDiff kCache key s t =
    rowDiff (kCache (r.blocks.getD (r.prefixBlks + t / cfg.blockSize) 0) (t % cfg.blockSize))
      (key.getD (s + t) []) := by
  unfold keyDiff
  dsimp only
  rw [Nat.mul_comm, Nat.mul_add_div cfg.blockSize_pos, Nat.mul_add_mod]

end NewReq

/-! ## Selections -/

/-- `torch.topk` gives the places of the largest values, whichever of equal ones. -/
def TopKOk (topk : TopK) : Prop :=
  ∀ diff k, k ≤ diff.length →
    Smallest (fun i => OrderDual.toDual (diff.getD i 0)) diff.length k (topk diff k)

namespace NewReq

variable {r : NewReq cfg η} {topk : TopK} {kCache : VllmBlock → Nat → List ℚ} {key : List (List ℚ)}
  {ratio : ℚ} {s : Nat}

/-- Tokens of the loaded blocks whose keys differ most. -/
structure Selects (r : NewReq cfg η) (kCache : VllmBlock → Nat → List ℚ) (key : List (List ℚ))
    (ratio : ℚ) (s : Nat) (sel : List Nat) : Prop where
  length : sel.length = r.topKNum ratio
  nodup : sel.Nodup
  subset : ∀ t ∈ sel, t ∈ r.hitTokens
  largest : ∀ t ∈ sel, ∀ t' ∈ r.hitTokens, t' ∉ sel →
    r.keyDiff kCache key s t' ≤ r.keyDiff kCache key s t

theorem topKNum_le (hratio : ratio ≤ 1) : r.topKNum ratio ≤ r.hitTokens.length := by
  apply Nat.floor_le_of_le
  exact mul_le_of_le_one_right (Nat.cast_nonneg _) hratio

theorem getD_keyDiff {i : Nat} (h : i < r.hitTokens.length) :
    (r.hitTokens.map (r.keyDiff kCache key s)).getD i 0 =
      r.keyDiff kCache key s (r.hitTokens.getD i 0) := by
  rw [List.getD_eq_getElem _ _ (by rwa [List.length_map]), List.getElem_map,
    List.getD_eq_getElem _ _ h]

theorem topk_spec (r : NewReq cfg η) (kCache : VllmBlock → Nat → List ℚ) (key : List (List ℚ))
    (s : Nat) (htopk : TopKOk topk) (hratio : ratio ≤ 1) :
    Smallest (fun i => OrderDual.toDual ((r.hitTokens.map (r.keyDiff kCache key s)).getD i 0))
      r.hitTokens.length (r.topKNum ratio)
      (topk (r.hitTokens.map (r.keyDiff kCache key s)) (r.topKNum ratio)) := by
  have hspec := htopk (r.hitTokens.map (r.keyDiff kCache key s)) (r.topKNum ratio)
    (by rw [List.length_map]; exact topKNum_le hratio)
  rwa [List.length_map] at hspec

theorem selects_selected (r : NewReq cfg η) (kCache : VllmBlock → Nat → List ℚ)
    (key : List (List ℚ)) (s : Nat) (htopk : TopKOk topk) (hratio : ratio ≤ 1) :
    r.Selects kCache key ratio s (r.selected topk kCache key ratio s) := by
  have hspec := topk_spec r kCache key s htopk hratio
  have hget : ∀ i ∈ topk (r.hitTokens.map (r.keyDiff kCache key s)) (r.topKNum ratio),
      ∃ h : i < r.hitTokens.length, r.hitTokens.getD i 0 = r.hitTokens[i] := fun i hi =>
    ⟨hspec.lt i hi, List.getD_eq_getElem _ _ (hspec.lt i hi)⟩
  constructor
  · exact (List.length_map _).trans hspec.length
  · refine List.Nodup.map_on ?_ hspec.nodup
    intro i hi j hj hij
    obtain ⟨hi, hgeti⟩ := hget i hi
    obtain ⟨hj, hgetj⟩ := hget j hj
    rw [hgeti, hgetj] at hij
    exact (List.Nodup.getElem_inj_iff nodup_hitTokens).mp hij
  · intro t ht
    obtain ⟨i, hi, rfl⟩ := List.mem_map.mp ht
    obtain ⟨hi, hgeti⟩ := hget i hi
    rw [hgeti]
    exact List.getElem_mem hi
  · intro t ht t' ht' hnot
    obtain ⟨i, hi, rfl⟩ := List.mem_map.mp ht
    obtain ⟨j, hj, rfl⟩ := List.mem_iff_getElem.mp ht'
    have hgetj : r.hitTokens.getD j 0 = r.hitTokens[j] := List.getD_eq_getElem _ _ hj
    have hleast := hspec.least i hi j hj fun hmem => hnot (List.mem_map.mpr ⟨j, hmem, hgetj⟩)
    rw [OrderDual.toDual_le_toDual, getD_keyDiff hj, getD_keyDiff (hspec.lt i hi), hgetj] at hleast
    exact hleast

/-! ## One request -/

/-- What is noted of a request with chunks, the `i`-th of the batch. -/
def reqMeta (r : NewReq cfg η) (i : Nat) : ReqMeta where
  reqIdx := i
  needBlend := 0 < r.hits.count true
  prefixLen := (r.prefixBlks * cfg.blockSize : Nat)
  prefixBlkLen := r.prefixBlks
  chunksLen := r.hits.length * cfg.blockSize
  chunksBlkLen := r.hits.length
  suffixLen := r.queryLen - (r.hits.length * cfg.blockSize : Nat)
  suffixBlkLen := getNumBlks (r.queryLen - (r.hits.length * cfg.blockSize : Nat)) cfg.blockSize
  chunkHitMask := r.hits
  chunkHitBlkLen := r.hits.count true

/-- What the mask says of a token of the request. A request without chunks is not in the metadata. -/
def kept (r : NewReq cfg η) (sel : List Nat) (t : Nat) : Bool :=
  !r.chunksMeta.isEmpty && (!r.hit t || sel.contains t)

/-- The stretch of the mask of the request. -/
def mask (r : NewReq cfg η) (sel : List Nat) : List Bool := (List.range r.queryLen).map (r.kept sel)

theorem length_mask (sel : List Nat) : (r.mask sel).length = r.queryLen := by
  rw [mask, List.length_map, List.length_range]

theorem getNumBlks_mul (n : Nat) : getNumBlks (n * cfg.blockSize : Nat) cfg.blockSize = n := by
  have hpos := cfg.blockSize_pos
  unfold getNumBlks
  have hsub : ((n * cfg.blockSize : Nat) : Int) + cfg.blockSize - 1 =
      ((n * cfg.blockSize + (cfg.blockSize - 1) : Nat) : Int) := by
    omega
  rw [hsub, ← Int.natCast_ediv, Nat.mul_comm, Nat.mul_add_div hpos, Nat.div_eq_of_lt (by omega)]
  rfl

theorem addRequest_eq {m : BlendMetaData} {idx : Nat} {seqLens : List Nat}
    (hseq : seqLens[m.blendStartReqIdx + idx]? = some (r.prefixBlks * cfg.blockSize + r.queryLen)) :
    m.addRequest idx r.chunksMeta seqLens cfg.blockSize =
      some { m with
        requests := m.requests ++
          if r.chunksMeta = [] then [] else [r.reqMeta (m.blendStartReqIdx + idx)] } := by
  have hstart := r.start
  have hhits : r.hits = r.chunksMeta.flatMap ChunkMetaData.storeHits := rfl
  unfold BlendMetaData.addRequest
  cases hchunks : r.chunksMeta with
  | nil =>
    dsimp only
    rw [if_pos rfl, List.append_nil]
  | cons c rest =>
    rw [hchunks] at hstart hhits
    have hstart := hstart c rfl
    dsimp only
    rw [hseq, Option.bind_eq_bind, Option.bind_some, if_neg (List.cons_ne_nil c rest), ← hhits, hstart]
    unfold reqMeta
    rw [getNumBlks_mul, Nat.cast_add, add_sub_cancel_left]

variable {attn : AttnMetadata σ} {m : BlendMetaData} {u : Bool} {i : Nat}

theorem blendRequest_unblended (hstart : attn.queryStartLoc[i]? = some s)
    (hend : attn.queryStartLoc[i + 1]? = some (s + r.queryLen))
    (hblend : r.hits.count true = 0) :
    blendRequest cfg topk kCache ratio attn key (m, u) (r.reqMeta i) =
      some ({ m with computeMask := fillTrue m.computeMask s (s + r.queryLen) }, u) := by
  have hidx : (r.reqMeta i).reqIdx = i := rfl
  have hneed : (r.reqMeta i).needBlend = false := decide_eq_false (by rw [hblend]; exact Nat.lt_irrefl 0)
  unfold blendRequest
  dsimp only
  rw [hidx, hstart, hend, Option.bind_eq_bind, Option.bind_some, Option.bind_some, if_pos hneed]

/-- **One request with loaded blocks.** -/
theorem blendRequest_blended (kCache : VllmBlock → Nat → List ℚ) (u : Bool) (htopk : TopKOk topk)
    (hratio : ratio ≤ 1)
    (hstart : attn.queryStartLoc[i]? = some s)
    (hend : attn.queryStartLoc[i + 1]? = some (s + r.queryLen))
    (hblocks : attn.blockTable[i]? = some r.blocks) (hkey : s + r.queryLen ≤ key.length)
    (hmax : s + r.queryLen ≤ cfg.maxModelLen)
    (hbuffer : m.chunkBlksHitMask.length = roundUp cfg.maxModelLen cfg.blockSize)
    {pre post : List Bool} (hpre : pre.length = s)
    (hmask : m.computeMask = pre ++ (List.replicate r.queryLen false ++ post))
    (hchunks : r.chunksMeta ≠ []) (hblend : 0 < r.hits.count true) :
    blendRequest cfg topk kCache ratio attn key (m, u) (r.reqMeta i) =
      some ({ m with
        chunkBlksHitMask := r.hits ++ m.chunkBlksHitMask.drop r.hits.length
        computeMask := pre ++ (r.mask (r.selected topk kCache key ratio s) ++ post)
        queryLens := m.queryLens.modify i (· - (r.hitTokens.length - r.topKNum ratio)) }, true) := by
  have hidx : (r.reqMeta i).reqIdx = i := rfl
  have hneed : ¬(r.reqMeta i).needBlend = false := by
    rw [Bool.not_eq_false]
    exact decide_eq_true hblend
  have hle : r.hits.length * cfg.blockSize ≤ r.queryLen := r.chunks_le
  have hpos : 0 < r.hits.length := hblend.trans_le List.count_le_length
  have hspec := topk_spec r kCache key s htopk hratio
  have hsel := selects_selected r kCache key s htopk hratio
  obtain ⟨rows, hreshape, hrows, hgolden⟩ := flatten_golden (r := r) hkey
  obtain ⟨hplaces, hflat⟩ := flatten_places (r := r) (by omega)
  have hids : (Gsa.Blocks.slice r.blocks (r.prefixBlks : Nat)
      ((r.prefixBlks : Nat) + (r.hits.length : Nat) : Int)).length = r.hits.length := by
    have hcover := r.hits_cover
    rw [← Nat.cast_add, Gsa.Blocks.slice_natCast, List.length_drop, List.length_take]
    omega
  have hcopy : ¬(m.chunkBlksHitMask.take r.hits.length).length ≠ r.hits.length := by
    rw [not_not]
    have hroom := le_roundUp cfg.maxModelLen cfg.blockSize_pos
    have hsize : r.hits.length ≤ r.hits.length * cfg.blockSize :=
      Nat.le_mul_of_pos_right _ cfg.blockSize_pos
    rw [List.length_take, hbuffer]
    omega
  have hdiff : List.zipWith rowDiff
      (r.hitTokens.map fun t => kCache (r.blocks.getD (r.prefixBlks + t / cfg.blockSize) 0)
        (t % cfg.blockSize)) (r.hitTokens.map fun t => key.getD (s + t) []) =
      r.hitTokens.map (r.keyDiff kCache key s) := by
    rw [List.zipWith_map, List.zipWith_self]
    exact List.map_congr_left fun t _ => (keyDiff_eq t).symm
  have hnum : ⌊(r.hitTokens.length : ℚ) * ratio⌋₊ = r.topKNum ratio := rfl
  have hfew : ¬(r.hitTokens.map (r.keyDiff kCache key s)).length < r.topKNum ratio := by
    rw [List.length_map]
    exact Nat.not_lt.mpr (topKNum_le hratio)
  have hwritten : (List.range r.queryLen).map (fun t => !r.hits.getD (t / cfg.blockSize) false ||
      (r.selected topk kCache key ratio s).contains t) =
      r.mask (r.selected topk kCache key ratio s) := by
    refine List.map_congr_left fun t _ => ?_
    unfold kept
    rw [List.isEmpty_eq_false_iff.mpr hchunks]
    rfl
  have hbound : ∀ t ∈ r.selected topk kCache key ratio s, t < r.hits.length * cfg.blockSize := by
    intro t ht
    have hmem := hsel.subset t ht
    rw [hitTokens_eq] at hmem
    exact List.mem_range.mp (List.mem_filter.mp hmem).1
  have hupdate := updateReqComputeMask_eq
    (m := { m with chunkBlksHitMask := r.hits ++ m.chunkBlksHitMask.drop r.hits.length })
    cfg.blockSize_pos hpos hle hmask hbound
  rw [hwritten, hpre] at hupdate
  unfold blendRequest
  dsimp only
  rw [hidx, hstart, hend, Option.bind_eq_bind, Option.bind_some, Option.bind_some, if_neg hneed]
  dsimp only [reqMeta]
  simp only [Option.bind_eq_bind]
  rw [hblocks, Option.bind_some]
  refine (if_neg hcopy).trans ?_
  rw [index_eq hids, Option.bind_some, flatMap_his, hreshape, Option.bind_some, index_eq hrows,
    Option.bind_some, hgolden, hdiff]
  simp only [← length_hitTokens, hnum]
  rw [if_neg hfew, index_eq hplaces, Option.bind_some, hflat, mapM_getElem? 0 r.hitTokens hspec.lt,
    Option.bind_some]
  exact congrArg (Option.bind · _) hupdate

/-- How many tokens of the request are kept. -/
def keptLen (r : NewReq cfg η) (ratio : ℚ) : Nat :=
  r.queryLen - (r.hitTokens.length - r.topKNum ratio)

theorem length_filter_selected {sel : List Nat} (hsel : r.Selects kCache key ratio s sel) :
    (r.hitTokens.filter sel.contains).length = r.topKNum ratio := by
  rw [← hsel.length]
  apply List.Perm.length_eq
  rw [List.perm_ext_iff_of_nodup (nodup_hitTokens.filter _) hsel.nodup]
  intro t
  rw [List.mem_filter, List.contains_iff_mem]
  exact ⟨And.right, fun ht => ⟨hsel.subset t ht, ht⟩⟩

/-- **How many are kept.** -/
theorem count_mask {sel : List Nat} (hsel : r.Selects kCache key ratio s sel)
    (hchunks : r.chunksMeta ≠ []) : (r.mask sel).count true = r.keptLen ratio := by
  have hkept : ∀ t, r.kept sel t = (!r.hit t || sel.contains t) := by
    intro t
    unfold kept
    rw [List.isEmpty_eq_false_iff.mpr hchunks]
    rfl
  have hsplit := List.length_eq_countP_add_countP (r.kept sel) (l := List.range r.queryLen)
  have hdropped : (List.range r.queryLen).countP (fun t => ¬r.kept sel t = true) =
      r.hitTokens.countP fun t => ¬sel.contains t = true := by
    unfold hitTokens
    rw [List.countP_filter]
    apply List.countP_congr
    intro t _
    rw [hkept]
    cases r.hit t <;> simp
  have hhits := List.length_eq_countP_add_countP sel.contains (l := r.hitTokens)
  have hcount := length_filter_selected hsel
  rw [← List.countP_eq_length_filter] at hcount
  have hmask : (r.mask sel).count true = (List.range r.queryLen).countP (r.kept sel) := by
    unfold mask
    rw [List.count_eq_countP, List.countP_map]
    apply List.countP_congr
    simp
  rw [List.length_range, hdropped] at hsplit
  rw [hmask, keptLen]
  omega

theorem hitTokens_nil (hblend : r.hits.count true = 0) : r.hitTokens = [] := by
  rw [← List.length_eq_zero_iff, length_hitTokens, hblend, Nat.zero_mul]

theorem keptLen_unblended (hblend : r.hits.count true = 0) : r.keptLen ratio = r.queryLen := by
  rw [keptLen, hitTokens_nil hblend, List.length_nil, Nat.zero_sub, Nat.sub_zero]

theorem mask_unblended (sel : List Nat) (hblend : r.hits.count true = 0) :
    r.mask sel = List.replicate r.queryLen !r.chunksMeta.isEmpty := by
  rw [List.eq_replicate_iff]
  refine ⟨length_mask sel, fun b hb => ?_⟩
  obtain ⟨t, ht, rfl⟩ := List.mem_map.mp hb
  have hhit : r.hit t = false := by
    rw [← Bool.not_eq_true]
    intro hhit
    have hmem := mem_hitTokens.mpr ⟨List.mem_range.mp ht, hhit⟩
    rw [hitTokens_nil hblend] at hmem
    exact absurd hmem List.not_mem_nil
  unfold kept
  rw [hhit]
  exact Bool.and_true _

end NewReq

/-! ## All the requests -/

variable {j : Nat}

section Loop

variable {topk : TopK} {kCache : VllmBlock → Nat → List ℚ} {key : List (List ℚ)} {ratio : ℚ}
  {attn : AttnMetadata σ}

/-- The stretches of the mask of new requests from place `s` on. -/
def masksFrom (topk : TopK) (kCache : VllmBlock → Nat → List ℚ) (key : List (List ℚ)) (ratio : ℚ) :
    Nat → List (NewReq cfg η) → List (List Bool)
  | _, [] => []
  | s, r :: rs => r.mask (r.selected topk kCache key ratio s) ::
      masksFrom topk kCache key ratio (s + r.queryLen) rs

/-- What is noted of new requests from the `i`-th of the batch on. -/
def reqMetas : Nat → List (NewReq cfg η) → List ReqMeta
  | _, [] => []
  | i, r :: rs => (if r.chunksMeta = [] then [] else [r.reqMeta i]) ++ reqMetas (i + 1) rs

/-- The new requests are those of the batch from the `i`-th on, which starts at place `s`. -/
def Laid (attn : AttnMetadata σ) : Nat → Nat → List (NewReq cfg η) → Prop
  | _, _, [] => True
  | i, s, r :: rs => attn.queryStartLoc[i]? = some s ∧
      attn.queryStartLoc[i + 1]? = some (s + r.queryLen) ∧ attn.blockTable[i]? = some r.blocks ∧
      attn.seqLens[i]? = some (r.prefixBlks * cfg.blockSize + r.queryLen) ∧
      Laid attn (i + 1) (s + r.queryLen) rs

/-- Some request has a block that was loaded. -/
def anyBlended (rs : List (NewReq cfg η)) : Bool := rs.any fun r => 0 < r.hits.count true

variable {rs : List (NewReq cfg η)}

theorem foldlM_addRequest {m : BlendMetaData} {k s : Nat}
    (hlaid : Laid attn (m.blendStartReqIdx + k) s rs) :
    ((rs.map NewReq.chunksMeta).zipIdx k).foldlM
        (fun m x => m.addRequest x.2 x.1 attn.seqLens cfg.blockSize) m =
      some { m with requests := m.requests ++ reqMetas (m.blendStartReqIdx + k) rs } := by
  induction rs generalizing m k s with
  | nil =>
    show some m = some { m with requests := m.requests ++ [] }
    rw [List.append_nil]
  | cons r rs ih =>
    obtain ⟨-, -, -, hseq, hrest⟩ := hlaid
    rw [List.map_cons, List.zipIdx_cons, List.foldlM_cons, NewReq.addRequest_eq hseq,
      Option.bind_eq_bind, Option.bind_some, ih hrest]
    rw [List.append_assoc]
    rfl

/-- **The loop over the requests.** The mask is written stretch by stretch, and the lengths are counted
down. -/
theorem foldlM_blendRequest (kCache : VllmBlock → Nat → List ℚ) (u : Bool) (htopk : TopKOk topk)
    (hratio : ratio ≤ 1) {i s : Nat} {pre : List Bool} {lens : List Nat} {m : BlendMetaData}
    (hlaid : Laid attn i s rs) (hpre : pre.length = s) (hlens : lens.length = i)
    (hmask : m.computeMask = pre ++ List.replicate (rs.map NewReq.queryLen).sum false)
    (hqueryLens : m.queryLens = lens ++ rs.map NewReq.queryLen)
    (hbuffer : m.chunkBlksHitMask.length = roundUp cfg.maxModelLen cfg.blockSize)
    (hmax : s + (rs.map NewReq.queryLen).sum ≤ cfg.maxModelLen)
    (hkey : s + (rs.map NewReq.queryLen).sum ≤ key.length) :
    ∃ buffer : List Bool, (reqMetas i rs).foldlM (blendRequest cfg topk kCache ratio attn key) (m, u) =
      some ({ m with
        chunkBlksHitMask := buffer
        computeMask := pre ++ (masksFrom topk kCache key ratio s rs).flatten
        queryLens := lens ++ rs.map (NewReq.keptLen · ratio) }, u || anyBlended rs) := by
  induction rs generalizing i s pre lens m u with
  | nil =>
    refine ⟨m.chunkBlksHitMask, ?_⟩
    rw [reqMetas, masksFrom, List.foldlM_nil, List.flatten_nil, List.map_nil, anyBlended, List.any_nil,
      Bool.or_false]
    rw [List.map_nil, List.sum_nil, List.replicate_zero] at hmask
    rw [List.map_nil] at hqueryLens
    rw [← hmask, ← hqueryLens]
    rfl
  | cons r rs ih =>
    obtain ⟨hstart, hend, hblocks, -, hrest⟩ := hlaid
    rw [List.map_cons, List.sum_cons] at hmask hmax hkey
    rw [List.map_cons] at hqueryLens
    rw [List.replicate_add] at hmask
    -- what is left for the other requests
    have hnext : ∀ (m' : BlendMetaData) (u' : Bool),
        m'.computeMask = pre ++ (r.mask (r.selected topk kCache key ratio s) ++
          List.replicate (rs.map NewReq.queryLen).sum false) →
        m'.queryLens = lens ++ r.keptLen ratio :: rs.map NewReq.queryLen →
        m'.chunkBlksHitMask.length = roundUp cfg.maxModelLen cfg.blockSize →
        ∃ buffer : List Bool,
          (reqMetas (i + 1) rs).foldlM (blendRequest cfg topk kCache ratio attn key) (m', u') =
            some ({ m' with
              chunkBlksHitMask := buffer
              computeMask := pre ++ (masksFrom topk kCache key ratio s (r :: rs)).flatten
              queryLens := lens ++ (r :: rs).map (NewReq.keptLen · ratio) }, u' || anyBlended rs) := by
      intro m' u' hmask' hlens' hbuffer'
      have hpre' : (pre ++ r.mask (r.selected topk kCache key ratio s)).length = s + r.queryLen := by
        rw [List.length_append, hpre, NewReq.length_mask]
      have hlen' : (lens ++ [r.keptLen ratio]).length = i + 1 := by
        rw [List.length_append, hlens, List.length_singleton]
      rw [← List.append_assoc] at hmask'
      rw [← List.singleton_append, ← List.append_assoc] at hlens'
      obtain ⟨buffer, hfold⟩ := ih u' hrest hpre' hlen' hmask' hlens' hbuffer' (by omega)
        (by omega)
      refine ⟨buffer, ?_⟩
      rw [hfold, masksFrom, List.flatten_cons, List.map_cons, List.append_assoc, List.append_assoc,
        List.singleton_append]
    by_cases hchunks : r.chunksMeta = []
    · -- the request is not in the metadata
      have hblend : r.hits.count true = 0 := by
        unfold NewReq.hits
        rw [hchunks]
        rfl
      have hany : anyBlended (r :: rs) = anyBlended rs := by
        unfold anyBlended
        rw [List.any_cons, hblend]
        rfl
      have hsame := NewReq.mask_unblended (r.selected topk kCache key ratio s) hblend
      rw [hchunks] at hsame
      rw [reqMetas, if_pos hchunks, List.nil_append, hany]
      apply hnext m u
      · rw [hmask, hsame]
        rfl
      · rw [hqueryLens, NewReq.keptLen_unblended hblend]
      · exact hbuffer
    · rw [reqMetas, if_neg hchunks, List.singleton_append, List.foldlM_cons]
      by_cases hblend : r.hits.count true = 0
      · have hany : anyBlended (r :: rs) = anyBlended rs := by
          unfold anyBlended
          rw [List.any_cons, hblend]
          rfl
        have hfill := fillTrue_append pre (List.replicate r.queryLen false)
          (List.replicate (rs.map NewReq.queryLen).sum false)
        rw [List.length_replicate, hpre] at hfill
        have hsame := NewReq.mask_unblended (r.selected topk kCache key ratio s) hblend
        rw [List.isEmpty_eq_false_iff.mpr hchunks] at hsame
        rw [NewReq.blendRequest_unblended hstart hend hblend, Option.bind_eq_bind, Option.bind_some,
          hany]
        apply hnext { m with computeMask := fillTrue m.computeMask s (s + r.queryLen) } u
        · show fillTrue m.computeMask s (s + r.queryLen) = _
          rw [hmask, hfill, hsame]
          rfl
        · show m.queryLens = _
          rw [hqueryLens, NewReq.keptLen_unblended hblend]
        · exact hbuffer
      · have hpos := Nat.pos_of_ne_zero hblend
        have hany : anyBlended (r :: rs) = true := by
          unfold anyBlended
          rw [List.any_cons, decide_eq_true hpos]
          rfl
        have hkey' : s + r.queryLen ≤ key.length := by omega
        have hmax' : s + r.queryLen ≤ cfg.maxModelLen := by omega
        have hsize : r.hits.length ≤ r.hits.length * cfg.blockSize :=
          Nat.le_mul_of_pos_right _ cfg.blockSize_pos
        have hchunksLen : r.hits.length * cfg.blockSize ≤ r.queryLen := r.chunks_le
        have hroom := le_roundUp cfg.maxModelLen cfg.blockSize_pos
        have hblended := NewReq.blendRequest_blended kCache u htopk hratio hstart hend hblocks hkey'
          hmax' hbuffer hpre hmask hchunks hpos
        rw [hblended, Option.bind_eq_bind, Option.bind_some, hany, Bool.or_true]
        obtain ⟨buffer, hfold⟩ := hnext
          { m with
            chunkBlksHitMask := r.hits ++ m.chunkBlksHitMask.drop r.hits.length
            computeMask := pre ++ (r.mask (r.selected topk kCache key ratio s) ++
              List.replicate (rs.map NewReq.queryLen).sum false)
            queryLens := m.queryLens.modify i (· - (r.hitTokens.length - r.topKNum ratio)) } true rfl
          (by rw [hqueryLens, ← hlens, modify_append]; rfl)
          (by rw [List.length_append, List.length_drop, hbuffer]; omega)
        rw [Bool.true_or] at hfold
        exact ⟨buffer, hfold⟩

theorem laid_of_suffix {lens seqs : List Nat} {tables : List (List VllmBlock)}
    (hstart : attn.queryStartLoc = (lens ++ rs.map NewReq.queryLen).scanl (· + ·) 0)
    (htable : attn.blockTable = tables ++ rs.map NewReq.blocks)
    (hseq : attn.seqLens = seqs ++ rs.map fun r => r.prefixBlks * cfg.blockSize + r.queryLen)
    (htables : tables.length = lens.length) (hseqs : seqs.length = lens.length) :
    Laid attn lens.length lens.sum rs := by
  induction rs generalizing lens seqs tables with
  | nil => trivial
  | cons r rs ih =>
    rw [List.map_cons] at hstart htable hseq
    have hlast : attn.queryStartLoc[lens.length]? = some lens.sum := by
      rw [hstart, List.getElem?_scanl, if_pos (by rw [List.length_append]; omega),
        List.take_append_length, ← List.sum_eq_foldl]
    refine ⟨hlast, ?_, ?_, ?_, ?_⟩
    · rw [hstart] at hlast ⊢
      rw [List.getElem?_succ_scanl, hlast, Option.bind_some, List.getElem?_append_right (Nat.le_refl _),
        Nat.sub_self]
      rfl
    · rw [htable, ← htables, List.getElem?_append_right (Nat.le_refl _), Nat.sub_self]
      rfl
    · rw [hseq, ← hseqs, List.getElem?_append_right (Nat.le_refl _), Nat.sub_self]
      rfl
    · rw [← List.singleton_append, ← List.append_assoc] at hstart htable hseq
      have hrest := ih hstart htable hseq (by rw [List.length_append, List.length_append, htables]; rfl)
        (by rw [List.length_append, List.length_append, hseqs]; rfl)
      rwa [List.length_append, List.sum_append, List.sum_singleton] at hrest

theorem length_masksFrom (s : Nat) (rs : List (NewReq cfg η)) :
    (masksFrom topk kCache key ratio s rs).map List.length = rs.map NewReq.queryLen := by
  induction rs generalizing s with
  | nil => rfl
  | cons r rs ih =>
    rw [masksFrom, List.map_cons, List.map_cons, NewReq.length_mask, ih]

theorem count_masksFrom (htopk : TopKOk topk) (hratio : ratio ≤ 1) (s : Nat)
    (hchunks : ∀ r ∈ rs, r.chunksMeta ≠ []) :
    (masksFrom topk kCache key ratio s rs).map (List.count true) =
      rs.map (NewReq.keptLen · ratio) := by
  induction rs generalizing s with
  | nil => rfl
  | cons r rs ih =>
    obtain ⟨hr, hrs⟩ := List.forall_mem_cons.mp hchunks
    rw [masksFrom, List.map_cons, List.map_cons, ih _ hrs,
      NewReq.count_mask (NewReq.selects_selected r kCache key s htopk hratio) hr]

theorem getElem?_masksFrom (s : Nat) {r : NewReq cfg η} (hr : rs[j]? = some r) :
    (masksFrom topk kCache key ratio s rs)[j]? = some (r.mask
      (r.selected topk kCache key ratio (s + ((rs.map NewReq.queryLen).take j).sum))) := by
  induction rs generalizing s j with
  | nil => exact absurd hr (by simp)
  | cons r' rs ih =>
    cases j with
    | zero =>
      obtain rfl := Option.some.inj hr
      rfl
    | succ j =>
      rw [masksFrom, List.getElem?_cons_succ, ih _ hr, List.map_cons, List.take_succ_cons,
        List.sum_cons, Nat.add_assoc]

end Loop

/-! ## The batch -/

theorem exists_scanl_eq (l : List Nat) (a : Nat) : ∃ tail, l.scanl (· + ·) a = a :: tail := by
  cases l with
  | nil => exact ⟨[], List.scanl_nil⟩
  | cons x l => exact ⟨_, List.scanl_cons⟩

theorem diffs_scanl (l : List Nat) (a : Nat) :
    List.zipWith (· - ·) (l.scanl (· + ·) a).tail (l.scanl (· + ·) a).dropLast = l := by
  induction l generalizing a with
  | nil => rfl
  | cons x l ih =>
    have hrest := ih (a + x)
    obtain ⟨tail, htail⟩ := exists_scanl_eq l (a + x)
    rw [List.scanl_cons, List.tail_cons, List.dropLast_cons_of_ne_nil List.scanl_ne_nil]
    rw [htail] at hrest ⊢
    rw [List.zipWith_cons_cons, Nat.add_sub_cancel_left]
    exact congrArg (x :: ·) hrest

namespace Batch

variable (b : Batch cfg η σ)

/-- Where a new request starts. -/
def start (j : Nat) : Nat := b.decodes.length + ((b.news.map NewReq.queryLen).take j).sum

variable {b}

theorem sum_queryLens : b.queryLens.sum = b.total := by
  unfold queryLens total
  rw [List.sum_append, List.sum_replicate_nat, Nat.mul_one]

theorem laid : Laid b.attnMetadata b.decodes.length b.decodes.length b.news := by
  have hstart : b.attnMetadata.queryStartLoc =
      (List.replicate b.decodes.length 1 ++ b.news.map NewReq.queryLen).scanl (· + ·) 0 := rfl
  have hlaid := laid_of_suffix hstart rfl rfl (by rw [List.length_map, List.length_replicate])
    (by rw [List.length_map, List.length_replicate])
  rwa [List.length_replicate, List.sum_replicate_nat, Nat.mul_one] at hlaid

theorem getLast?_queryStartLoc : b.attnMetadata.queryStartLoc.getLast? = some b.total := by
  rw [← sum_queryLens, List.sum_eq_foldl]
  exact List.getLast?_scanl

variable (buffers : Buffers cfg)

/-- The metadata of the step. -/
def metadata (b : Batch cfg η σ) (buffers : Buffers cfg) : BlendMetaData :=
  { buffers.metadata with
    requests := reqMetas b.decodes.length b.news
    computeMask := buffers.forwardMask.take b.total
    queryLens := b.queryLens
    blendStartReqIdx := b.decodes.length
    needReIndex := false }

theorem buildSparseMeta_eq :
    buildSparseMeta cfg buffers.metadata buffers.forwardMask b.attnMetadata b.decodes.length
      (b.news.map NewReq.chunksMeta) = some (b.metadata buffers) := by
  unfold buildSparseMeta BlendMetaData.resetBlendMeta
  simp only [Option.bind_eq_bind]
  rw [getLast?_queryStartLoc, Option.bind_some, Option.bind_some]
  have hdiffs : List.zipWith (· - ·) b.attnMetadata.queryStartLoc.tail
      b.attnMetadata.queryStartLoc.dropLast = b.queryLens := diffs_scanl b.queryLens 0
  rw [hdiffs]
  exact foldlM_addRequest (k := 0) b.laid

/-! ### The mask -/

variable {topk : TopK} {kCache : VllmBlock → Nat → List ℚ} {key : List (List ℚ)} {ratio : ℚ}

/-- The mask of the batch. -/
def mask (b : Batch cfg η σ) (topk : TopK) (kCache : VllmBlock → Nat → List ℚ)
    (key : List (List ℚ)) (ratio : ℚ) : List Bool :=
  List.replicate b.decodes.length true ++
    (masksFrom topk kCache key ratio b.decodes.length b.news).flatten

/-- How many tokens of each request are kept. -/
def keptLens (b : Batch cfg η σ) (ratio : ℚ) : List Nat :=
  List.replicate b.decodes.length 1 ++ b.news.map (NewReq.keptLen · ratio)

/-- The mask of each request. -/
def masks (b : Batch cfg η σ) (topk : TopK) (kCache : VllmBlock → Nat → List ℚ)
    (key : List (List ℚ)) (ratio : ℚ) : List (List Bool) :=
  List.replicate b.decodes.length [true] ++
    masksFrom topk kCache key ratio b.decodes.length b.news

theorem mask_eq : b.mask topk kCache key ratio = (b.masks topk kCache key ratio).flatten := by
  unfold mask masks
  rw [List.flatten_append, List.flatten_replicate_singleton]

theorem map_length_masks (b : Batch cfg η σ) (topk : TopK) (kCache : VllmBlock → Nat → List ℚ)
    (key : List (List ℚ)) (ratio : ℚ) :
    (b.masks topk kCache key ratio).map List.length = b.queryLens := by
  unfold masks queryLens
  rw [List.map_append, List.map_replicate, length_masksFrom]
  rfl

theorem length_mask : (b.mask topk kCache key ratio).length = b.total := by
  rw [mask_eq, List.length_flatten, map_length_masks, sum_queryLens]

theorem map_count_masks (htopk : TopKOk topk) (hratio : ratio ≤ 1)
    (hchunks : ∀ r ∈ b.news, r.chunksMeta ≠ []) :
    (b.masks topk kCache key ratio).map (List.count true) = b.keptLens ratio := by
  unfold masks keptLens
  rw [List.map_append, List.map_replicate, count_masksFrom htopk hratio _ hchunks]
  rfl

theorem getElem?_mask {t : Nat} {r : NewReq cfg η} (hr : b.news[j]? = some r) (ht : t < r.queryLen) :
    (b.mask topk kCache key ratio)[b.start j + t]? =
      some (r.kept (r.selected topk kCache key ratio (b.start j)) t) := by
  have hmask : (masksFrom topk kCache key ratio b.decodes.length b.news)[j]? =
      some (r.mask (r.selected topk kCache key ratio (b.start j))) := getElem?_masksFrom _ hr
  have hflat := getElem?_flatten hmask (by rwa [NewReq.length_mask])
  rw [length_masksFrom] at hflat
  unfold mask start
  rw [List.getElem?_append_right (by rw [List.length_replicate]; omega), List.length_replicate,
    Nat.add_assoc, Nat.add_sub_cancel_left, hflat, NewReq.mask, List.getElem?_map,
    List.getElem?_range ht]
  rfl

theorem resetComputeMask_metadata (buffers : Buffers cfg) (hroom : b.total ≤ cfg.maxModelLen) :
    (b.metadata buffers).resetComputeMask.computeMask = List.replicate b.decodes.length true ++
      List.replicate (b.news.map NewReq.queryLen).sum false := by
  have hlen : (buffers.forwardMask.take b.total).length = b.total := by
    rw [List.length_take, buffers.forwardMask_length, Nat.min_eq_left hroom]
  have hfill := fillTrue_append [] (List.replicate b.decodes.length false)
    (List.replicate (b.news.map NewReq.queryLen).sum false)
  rw [List.length_replicate, List.nil_append, List.nil_append, List.length_nil, Nat.zero_add,
    ← List.replicate_add] at hfill
  unfold BlendMetaData.resetComputeMask metadata
  dsimp only
  rw [hlen]
  exact hfill

end Batch

/-- The step with this mask and these lengths. The rows of the tensors are cut down if some request has
loaded blocks. -/
structure Ran {b : Batch cfg η σ} (x : Tensors cfg b α β ω) (mask : List Bool) (lens : List Nat)
    (res : Begun α β ω σ) : Prop where
  computeMask : res.metadata.computeMask = mask
  queryLens : res.metadata.queryLens = lens
  needReIndex : res.metadata.needReIndex = anyBlended b.news
  pruned : anyBlended b.news = true → res.query = keep x.query mask ∧ res.key = keep x.key mask ∧
    res.value = keep x.value mask ∧ res.attn.slotMapping = keep b.slotMapping mask ∧
    res.attn.queryStartLoc = lens.scanl (· + ·) 0 ∧ res.attn.numActualTokens = lens.sum
  whole : anyBlended b.news = false → res.query = x.query ∧ res.key = x.key ∧ res.value = x.value ∧
    res.attn = b.attnMetadata

variable {res : Begun α β ω σ}

section Run

variable {b : Batch cfg η σ} {x : Tensors cfg b α β ω} {topk : TopK}
  {kCache : VllmBlock → Nat → List ℚ} {ratio : ℚ} {buffers : Buffers cfg} {layerName : String}

/-- **The step.** -/
theorem exists_ran (buffers : Buffers cfg) (x : Tensors cfg b α β ω)
    (kCache : VllmBlock → Nat → List ℚ) (htopk : TopKOk topk) (hratio : ratio ≤ 1)
    (hlayer : cfg.computeMeta layerName = some ratio) (hroom : b.total ≤ cfg.maxModelLen) :
    ∃ res, run cfg topk kCache buffers x layerName = some res ∧
      Ran x (b.mask topk kCache x.key ratio) (b.keptLens ratio) res := by
  have hkey := x.key_length
  obtain ⟨buffer, hfold⟩ := foldlM_blendRequest kCache false htopk hratio b.laid
    List.length_replicate List.length_replicate (b.resetComputeMask_metadata buffers hroom) rfl
    buffers.hitMask_length hroom hkey.ge
  have hmask : (b.mask topk kCache x.key ratio).length = b.total := Batch.length_mask
  unfold run
  rw [Batch.buildSparseMeta_eq, Option.bind_eq_bind, Option.bind_some]
  unfold attentionBegin
  rw [hlayer]
  dsimp only
  have hrequests : (b.metadata buffers).requests = reqMetas b.decodes.length b.news := rfl
  rw [hrequests, hfold, Bool.false_or, Option.bind_eq_bind, Option.bind_some]
  dsimp only
  cases hany : anyBlended b.news with
  | false =>
    refine ⟨_, if_neg Bool.false_ne_true, ?_⟩
    exact ⟨rfl, rfl, hany.symm, fun h => absurd h (by rw [hany]; exact Bool.false_ne_true),
      fun _ => ⟨rfl, rfl, rfl, rfl⟩⟩
  | true =>
    have hnews : b.keptLens ratio ≠ [] := by
      intro hnil
      have hlen := congrArg List.length hnil
      unfold Batch.keptLens at hlen
      rw [List.length_append, List.length_map, List.length_nil] at hlen
      have : b.news = [] := List.length_eq_zero_iff.mp (by omega)
      rw [this] at hany
      exact Bool.false_ne_true hany
    obtain ⟨longest, hlongest⟩ := Option.ne_none_iff_exists'.mp (mt List.max?_eq_none_iff.mp hnews)
    have hslots : b.attnMetadata.slotMapping.length = (b.mask topk kCache x.key ratio).length :=
      b.slotMapping_length.trans hmask.symm
    have hstarts : b.attnMetadata.queryStartLoc.take 1 ++
        ((b.keptLens ratio).scanl (· + ·) 0).tail = (b.keptLens ratio).scanl (· + ·) 0 := by
      obtain ⟨tail, htail⟩ := exists_scanl_eq b.queryLens 0
      obtain ⟨tail', htail'⟩ := exists_scanl_eq (b.keptLens ratio) 0
      have hloc : b.attnMetadata.queryStartLoc = 0 :: tail := htail
      rw [hloc, htail']
      rfl
    have hupdate : ∀ m : BlendMetaData, m.computeMask = b.mask topk kCache x.key ratio →
        m.queryLens = b.keptLens ratio → updateAttnMetadata m b.attnMetadata =
          some { b.attnMetadata with
            slotMapping := keep b.slotMapping (b.mask topk kCache x.key ratio)
            queryStartLoc := (b.keptLens ratio).scanl (· + ·) 0
            maxQueryLen := longest
            numActualTokens := (b.keptLens ratio).sum } := by
      intro m hm hlens
      unfold updateAttnMetadata
      rw [hm, hlens, index_eq hslots, hlongest, hstarts]
      rfl
    rw [if_pos rfl]
    simp only [Option.bind_eq_bind]
    rw [hupdate _ rfl rfl, Option.bind_some]
    have hindex : ∀ {γ : Type} {y : List γ}, y.length = b.total →
        index y (List.replicate b.decodes.length true ++
          (masksFrom topk kCache x.key ratio b.decodes.length b.news).flatten) =
          some (keep y (b.mask topk kCache x.key ratio)) := fun hy => index_eq (hy.trans hmask.symm)
    rw [hindex x.query_length, Option.bind_some, hindex x.key_length, Option.bind_some,
      hindex x.value_length, Option.bind_some]
    refine ⟨_, rfl, rfl, rfl, hany.symm, fun _ => ⟨rfl, rfl, rfl, rfl, rfl, rfl⟩, fun h => ?_⟩
    rw [hany] at h
    exact absurd h.symm Bool.false_ne_true

theorem keptLens_unblended (hany : anyBlended b.news = false) : b.keptLens ratio = b.queryLens := by
  unfold Batch.keptLens Batch.queryLens
  congr 1
  refine List.map_congr_left fun r hr => NewReq.keptLen_unblended ?_
  have hr := List.any_eq_false.mp hany r hr
  rw [decide_eq_true_iff] at hr
  omega

theorem sum_keptLens (kCache : VllmBlock → Nat → List ℚ) (key : List (List ℚ))
    (htopk : TopKOk topk) (hratio : ratio ≤ 1) (hchunks : ∀ r ∈ b.news, r.chunksMeta ≠ []) :
    (b.keptLens ratio).sum = (b.mask topk kCache key ratio).count true := by
  rw [Batch.mask_eq, List.count_flatten, Batch.map_count_masks htopk hratio hchunks]

theorem mask_unblended (htopk : TopKOk topk) (hratio : ratio ≤ 1)
    (hchunks : ∀ r ∈ b.news, r.chunksMeta ≠ []) (hany : anyBlended b.news = false)
    (key : List (List ℚ)) : b.mask topk kCache key ratio = List.replicate b.total true := by
  have hlen : (b.mask topk kCache key ratio).length = b.total := Batch.length_mask
  have hcount : (b.mask topk kCache key ratio).count true = (b.mask topk kCache key ratio).length := by
    rw [hlen, ← sum_keptLens kCache key htopk hratio hchunks, keptLens_unblended hany,
      Batch.sum_queryLens]
  rw [List.eq_replicate_iff]
  exact ⟨hlen, fun y hy => (List.count_eq_length.mp hcount y hy).symm⟩

/-- What the step returns is cut down to what is kept in either case. -/
structure Cut {b : Batch cfg η σ} (x : Tensors cfg b α β ω) (mask : List Bool) (lens : List Nat)
    (res : Begun α β ω σ) : Prop where
  query : res.query = keep x.query mask
  key : res.key = keep x.key mask
  value : res.value = keep x.value mask
  slotMapping : res.attn.slotMapping = keep b.slotMapping mask
  queryStartLoc : res.attn.queryStartLoc = lens.scanl (· + ·) 0
  numActualTokens : res.attn.numActualTokens = lens.sum
  logits : executeFinished res.metadata res.attn b.logitsIndices =
    (lens.scanl (· + ·) 0).tail.map fun (loc : Nat) => (loc : Int) - 1

theorem Ran.cut (h : Ran x (b.mask topk kCache x.key ratio) (b.keptLens ratio) res)
    (htopk : TopKOk topk) (hratio : ratio ≤ 1) (hchunks : ∀ r ∈ b.news, r.chunksMeta ≠ []) :
    Cut x (b.mask topk kCache x.key ratio) (b.keptLens ratio) res := by
  have hre := h.needReIndex
  cases hany : anyBlended b.news with
  | true =>
    obtain ⟨hquery, hkey, hvalue, hslots, hloc, htokens⟩ := h.pruned hany
    refine ⟨hquery, hkey, hvalue, hslots, hloc, htokens, ?_⟩
    unfold executeFinished
    rw [hre, hany, if_pos rfl, hloc]
  | false =>
    obtain ⟨hquery, hkey, hvalue, hattn⟩ := h.whole hany
    rw [mask_unblended htopk hratio hchunks hany, keptLens_unblended hany]
    refine ⟨?_, ?_, ?_, ?_, ?_, ?_, ?_⟩
    · rw [hquery, keep_replicate_true x.query_length]
    · rw [hkey, keep_replicate_true x.key_length]
    · rw [hvalue, keep_replicate_true x.value_length]
    · rw [hattn]
      exact (keep_replicate_true b.slotMapping_length).symm
    · rw [hattn]
      rfl
    · rw [hattn, Batch.sum_queryLens]
      rfl
    · unfold executeFinished
      rw [hre, hany, if_neg Bool.false_ne_true]
      rfl

theorem Ran.ffnBegin {δ : Type} (h : Ran x (b.mask topk kCache x.key ratio) (b.keptLens ratio) res)
    (htopk : TopKOk topk) (hratio : ratio ≤ 1) (hchunks : ∀ r ∈ b.news, r.chunksMeta ≠ [])
    {hiddenStates : List γ} {residual : List δ} (hhidden : hiddenStates.length = b.total)
    (hresidual : residual.length = b.total) :
    ffnBegin res.metadata res.attn hiddenStates residual =
      some (hiddenStates.take (b.keptLens ratio).sum,
        keep residual (b.mask topk kCache x.key ratio)) := by
  have hcut := h.cut htopk hratio hchunks
  have hlen : (b.mask topk kCache x.key ratio).length = b.total := Batch.length_mask
  have hre := h.needReIndex
  unfold Blend.ffnBegin indexTensor
  rw [hcut.numActualTokens, h.computeMask, hre]
  cases hany : anyBlended b.news with
  | true =>
    rw [if_pos ⟨rfl, hlen.trans hresidual.symm⟩, if_pos rfl, index_eq (hresidual.trans hlen.symm)]
    rfl
  | false =>
    rw [if_neg fun hc => Bool.false_ne_true hc.1, mask_unblended htopk hratio hchunks hany,
      keep_replicate_true hresidual, keptLens_unblended hany, Batch.sum_queryLens, ← hhidden,
      List.take_length]

theorem mask_of_total (htopk : TopKOk topk) (hratio : ratio ≤ 1)
    (hchunks : ∀ r ∈ b.news, r.chunksMeta ≠ []) {key : List (List ℚ)}
    (hall : b.total = (b.keptLens ratio).sum) :
    b.mask topk kCache key ratio = List.replicate b.total true := by
  have hlen : (b.mask topk kCache key ratio).length = b.total := Batch.length_mask
  have hcount := sum_keptLens kCache key htopk hratio hchunks
  rw [List.eq_replicate_iff]
  refine ⟨hlen, fun y hy => ?_⟩
  rw [← hall, ← hlen] at hcount
  exact (List.count_eq_length.mp hcount.symm y hy).symm

theorem Ran.ffnBegin_kept {δ : Type}
    (h : Ran x (b.mask topk kCache x.key ratio) (b.keptLens ratio) res) (htopk : TopKOk topk)
    (hratio : ratio ≤ 1) (hchunks : ∀ r ∈ b.news, r.chunksMeta ≠ []) {hiddenStates : List γ}
    {residual : List δ} (hhidden : hiddenStates.length = (b.keptLens ratio).sum)
    (hresidual : residual.length = (b.keptLens ratio).sum) :
    Blend.ffnBegin res.metadata res.attn hiddenStates residual = some (hiddenStates, residual) := by
  by_cases hall : b.total = (b.keptLens ratio).sum
  · rw [h.ffnBegin htopk hratio hchunks (hhidden.trans hall.symm) (hresidual.trans hall.symm),
      mask_of_total htopk hratio hchunks hall, keep_replicate_true (hresidual.trans hall.symm), ← hhidden,
      List.take_length]
  · refine if_neg fun hc => hall ?_
    rw [← hresidual, ← hc.2, h.computeMask]
    exact Batch.length_mask.symm

theorem Ran.layerBegin {δ ε : Type}
    (h : Ran x (b.mask topk kCache x.key ratio) (b.keptLens ratio) res) (htopk : TopKOk topk)
    (hratio : ratio ≤ 1) (hchunks : ∀ r ∈ b.news, r.chunksMeta ≠ []) {positions : List γ}
    {hiddenStates : List δ} (residual : List ε) (hpositions : positions.length = b.total)
    (hhidden : hiddenStates.length = (b.keptLens ratio).sum) :
    layerBegin res.metadata positions hiddenStates residual =
      some (keep positions (b.mask topk kCache x.key ratio), hiddenStates, residual) := by
  have hlen : (b.mask topk kCache x.key ratio).length = b.total := Batch.length_mask
  have hre := h.needReIndex
  unfold Blend.layerBegin indexTensor
  rw [hpositions, hhidden, h.computeMask, hre]
  by_cases hall : b.total = (b.keptLens ratio).sum
  · rw [if_neg (not_not.mpr hall), mask_of_total htopk hratio hchunks hall, keep_replicate_true hpositions]
  · rw [if_pos hall]
    have hany : anyBlended b.news = true := by
      by_contra hnone
      rw [Bool.not_eq_true] at hnone
      rw [keptLens_unblended hnone, Batch.sum_queryLens] at hall
      exact hall rfl
    rw [hany, if_pos rfl, index_eq (hpositions.trans hlen.symm)]
    rfl

end Run

/-! ## The main result -/

/-- The token at an index, where a negative one counts from the end. -/
def tokenAt (tokens : List Nat) (i : Int) : Option Nat :=
  if 0 ≤ i then tokens[i.toNat]? else if 0 ≤ tokens.length + i then tokens[(tokens.length + i).toNat]?
  else none

/-- The tokens of a batch are pruned as they should be. -/
structure Pruned (b : Batch cfg η σ) (kCache : VllmBlock → Nat → List ℚ) (ratio : ℚ)
    (x : Tensors cfg b α β ω) (res : Begun α β ω σ) : Prop where
  /-- The length of a request is the number of its tokens that are kept. -/
  lens : ∀ j s n : Nat, b.attnMetadata.queryStartLoc[j]? = some s → b.queryLens[j]? = some n →
    res.metadata.queryLens[j]? = some (((res.metadata.computeMask.drop s).take n).count true)
  decodes : ∀ i < b.decodes.length, res.metadata.computeMask[i]? = some true
  /-- What was not loaded is kept: requests without loaded blocks, missed blocks, what comes after the
  chunks. -/
  computed : ∀ (j : Nat) (r : NewReq cfg η), b.news[j]? = some r → ∀ t < r.queryLen, r.hit t = false →
    res.metadata.computeMask[b.start j + t]? = some true
  /-- Of the tokens that were loaded as many are kept as the ratio says. -/
  reused : ∀ (j : Nat) (r : NewReq cfg η), b.news[j]? = some r →
    (r.hitTokens.filter fun t => res.metadata.computeMask.getD (b.start j + t) false).length =
      r.topKNum ratio
  /-- They are ones that differ most. -/
  largest : ∀ (j : Nat) (r : NewReq cfg η), b.news[j]? = some r → ∀ t ∈ r.hitTokens, ∀ t' ∈ r.hitTokens,
    res.metadata.computeMask[b.start j + t]? = some true →
    res.metadata.computeMask[b.start j + t']? ≠ some true →
    r.keyDiff kCache x.key (b.start j) t' ≤ r.keyDiff kCache x.key (b.start j) t
  query : res.query = keep x.query res.metadata.computeMask
  key : res.key = keep x.key res.metadata.computeMask
  value : res.value = keep x.value res.metadata.computeMask
  slotMapping : res.attn.slotMapping = keep b.slotMapping res.metadata.computeMask
  /-- A request starts after what is kept before it. -/
  starts : res.attn.queryStartLoc =
    b.attnMetadata.queryStartLoc.map fun s => (res.metadata.computeMask.take s).count true
  /-- Its logits are those of its last token. -/
  logits : ∀ j s n : Nat, b.attnMetadata.queryStartLoc[j]? = some s → b.queryLens[j]? = some n →
    ∃ i, (executeFinished res.metadata res.attn b.logitsIndices)[j]? = some i ∧
      tokenAt (keep (List.range b.total) res.metadata.computeMask) i = some (s + n - 1)

/-- Every new request has chunks, the batch fits into the mask, and the last token of a request is kept:
it was not loaded, or those that differ at least as much are no more than are computed on. -/
structure Prunable (b : Batch cfg η σ) (kCache : VllmBlock → Nat → List ℚ) (ratio : ℚ)
    (key : List (List ℚ)) : Prop where
  chunks : ∀ r ∈ b.news, r.chunksMeta ≠ []
  room : b.total ≤ cfg.maxModelLen
  last : ∀ (j : Nat) (r : NewReq cfg η), b.news[j]? = some r → r.hit (r.queryLen - 1) = true →
    r.hitTokens.countP (fun t => r.keyDiff kCache key (b.start j) (r.queryLen - 1) ≤
      r.keyDiff kCache key (b.start j) t) ≤ r.topKNum ratio

section Main

variable {b : Batch cfg η σ} {x : Tensors cfg b α β ω} {topk : TopK}
  {kCache : VllmBlock → Nat → List ℚ} {key : List (List ℚ)} {ratio : ℚ}

theorem getElem?_mask_hit (hchunks : ∀ r ∈ b.news, r.chunksMeta ≠ []) {t : Nat} {r : NewReq cfg η}
    (hr : b.news[j]? = some r) (ht : t ∈ r.hitTokens) :
    (b.mask topk kCache key ratio)[b.start j + t]? =
      some ((r.selected topk kCache key ratio (b.start j)).contains t) := by
  obtain ⟨ht, hhit⟩ := NewReq.mem_hitTokens.mp ht
  rw [Batch.getElem?_mask hr ht, NewReq.kept,
    List.isEmpty_eq_false_iff.mpr (hchunks r (List.mem_of_getElem? hr)), hhit]
  rfl

theorem getElem?_mask_computed (hchunks : ∀ r ∈ b.news, r.chunksMeta ≠ []) {t : Nat}
    {r : NewReq cfg η} (hr : b.news[j]? = some r) (ht : t < r.queryLen) (hhit : r.hit t = false) :
    (b.mask topk kCache key ratio)[b.start j + t]? = some true := by
  rw [Batch.getElem?_mask hr ht, NewReq.kept,
    List.isEmpty_eq_false_iff.mpr (hchunks r (List.mem_of_getElem? hr)), hhit]
  rfl

theorem last_selected {r : NewReq cfg η} (htopk : TopKOk topk) (hratio : ratio ≤ 1)
    (hok : Prunable b kCache ratio key) (hr : b.news[j]? = some r)
    (hhit : r.hit (r.queryLen - 1) = true) :
    r.queryLen - 1 ∈ r.selected topk kCache key ratio (b.start j) := by
  have hpos := r.queryLen_pos
  have hmem : r.queryLen - 1 ∈ r.hitTokens := NewReq.mem_hitTokens.mpr ⟨by omega, hhit⟩
  obtain ⟨i, hi, hget⟩ := List.mem_iff_getElem.mp hmem
  have hgetD : r.hitTokens.getD i 0 = r.queryLen - 1 := (List.getD_eq_getElem _ _ hi).trans hget
  have hspec := NewReq.topk_spec r kCache key (b.start j) htopk hratio
  refine List.mem_map.mpr ⟨i, hspec.mem_of_le ?_ hi le_rfl, hgetD⟩
  refine le_trans (le_of_eq ?_) (hok.last j r hr hhit)
  conv_rhs => rw [← map_getD_range r.hitTokens 0]
  rw [List.countP_map]
  apply List.countP_congr
  intro p hp
  have hp := List.mem_range.mp hp
  rw [NewReq.getD_keyDiff hp, NewReq.getD_keyDiff hi, hgetD]
  rfl

theorem getElem?_queryStartLoc (hj : j ≤ b.queryLens.length) :
    b.attnMetadata.queryStartLoc[j]? = some (b.queryLens.take j).sum := by
  show (b.queryLens.scanl (· + ·) 0)[j]? = _
  rw [List.getElem?_scanl, if_pos hj, List.sum_eq_foldl]

theorem start_eq : (b.queryLens.take (b.decodes.length + j)).sum = b.start j := by
  unfold Batch.queryLens Batch.start
  have happend : ((List.replicate b.decodes.length 1) ++ b.news.map NewReq.queryLen).take
      ((List.replicate b.decodes.length 1).length + j) =
      List.replicate b.decodes.length 1 ++ (b.news.map NewReq.queryLen).take j :=
    List.take_length_add_append j
  rw [List.length_replicate] at happend
  rw [happend, List.sum_append, List.sum_replicate_nat, Nat.mul_one]

theorem request_cases {s n : Nat} (hs : b.attnMetadata.queryStartLoc[j]? = some s)
    (hn : b.queryLens[j]? = some n) :
    s = (b.queryLens.take j).sum ∧ ((j < b.decodes.length ∧ s = j ∧ n = 1) ∨
      ∃ (i : Nat) (r : NewReq cfg η), b.news[i]? = some r ∧ s = b.start i ∧ n = r.queryLen) := by
  obtain ⟨hj, -⟩ := List.getElem?_eq_some_iff.mp hn
  rw [getElem?_queryStartLoc hj.le] at hs
  obtain rfl := Option.some.inj hs
  refine ⟨rfl, ?_⟩
  by_cases hdecode : j < b.decodes.length
  · refine Or.inl ⟨hdecode, ?_, ?_⟩
    · unfold Batch.queryLens
      rw [List.take_append_of_le_length (by rw [List.length_replicate]; exact hdecode.le),
        List.take_replicate, List.sum_replicate_nat, Nat.mul_one, Nat.min_eq_left hdecode.le]
    · unfold Batch.queryLens at hn
      rw [List.getElem?_append_left (by rw [List.length_replicate]; exact hdecode),
        List.getElem?_replicate_of_lt hdecode] at hn
      exact (Option.some.inj hn).symm
  · obtain ⟨i, rfl⟩ := Nat.exists_eq_add_of_le (Nat.le_of_not_lt hdecode)
    unfold Batch.queryLens at hn
    rw [List.getElem?_append_right (by rw [List.length_replicate]; omega), List.length_replicate,
      Nat.add_sub_cancel_left, List.getElem?_map, Option.map_eq_some_iff] at hn
    obtain ⟨r, hr, hlen⟩ := hn
    exact Or.inr ⟨i, r, hr, start_eq, hlen.symm⟩

theorem getElem?_mask_last {s n : Nat} (htopk : TopKOk topk) (hratio : ratio ≤ 1)
    (hok : Prunable b kCache ratio key) (hs : b.attnMetadata.queryStartLoc[j]? = some s)
    (hn : b.queryLens[j]? = some n) :
    (b.mask topk kCache key ratio)[s + n - 1]? = some true ∧ 0 < n := by
  obtain ⟨-, ⟨hj, rfl, rfl⟩ | ⟨i, r, hr, rfl, rfl⟩⟩ := request_cases hs hn
  · refine ⟨?_, Nat.one_pos⟩
    unfold Batch.mask
    rw [Nat.add_sub_cancel, List.getElem?_append_left (by rw [List.length_replicate]; exact hj),
      List.getElem?_replicate_of_lt hj]
  · have hpos := r.queryLen_pos
    refine ⟨?_, hpos⟩
    rw [Nat.add_sub_assoc hpos]
    cases hhit : r.hit (r.queryLen - 1) with
    | false => exact getElem?_mask_computed hok.chunks hr (by omega) hhit
    | true =>
      rw [getElem?_mask_hit hok.chunks hr (NewReq.mem_hitTokens.mpr ⟨by omega, hhit⟩),
        List.contains_iff_mem.mpr (last_selected htopk hratio hok hr hhit)]

theorem count_take_mask (kCache : VllmBlock → Nat → List ℚ) (key : List (List ℚ))
    (htopk : TopKOk topk) (hratio : ratio ≤ 1) (hchunks : ∀ r ∈ b.news, r.chunksMeta ≠ []) (j : Nat) :
    ((b.mask topk kCache key ratio).take (b.queryLens.take j).sum).count true =
      ((b.keptLens ratio).take j).sum := by
  rw [Batch.mask_eq, ← b.map_length_masks topk kCache key ratio, List.take_sum_flatten, List.count_flatten,
    ← Batch.map_count_masks htopk hratio hchunks, List.map_take]

/-- **A batch that may be pruned is pruned as it should be.** -/
theorem Prunable.pruned (hok : Prunable b kCache ratio x.key) (htopk : TopKOk topk)
    (hratio : ratio ≤ 1) (h : Ran x (b.mask topk kCache x.key ratio) (b.keptLens ratio) res) :
    Pruned b kCache ratio x res := by
  have hcut := h.cut htopk hratio hok.chunks
  have hlen : (b.mask topk kCache x.key ratio).length = b.total := Batch.length_mask
  have hkeptLens : (b.keptLens ratio).length = b.queryLens.length := by
    unfold Batch.keptLens Batch.queryLens
    rw [List.length_append, List.length_append, List.length_map, List.length_map,
      List.length_replicate]
  constructor
  · intro j s n hs hn
    obtain ⟨rfl, -⟩ := request_cases hs hn
    rw [h.computeMask, h.queryLens]
    rw [← b.map_length_masks topk kCache x.key ratio, List.getElem?_map, Option.map_eq_some_iff] at hn
    obtain ⟨seg, hseg, rfl⟩ := hn
    rw [Batch.mask_eq, ← b.map_length_masks topk kCache x.key ratio, take_drop_flatten hseg,
      ← Batch.map_count_masks htopk hratio hok.chunks, List.getElem?_map, hseg]
    rfl
  · intro i hi
    rw [h.computeMask, Batch.mask, List.getElem?_append_left (by rw [List.length_replicate]; exact hi),
      List.getElem?_replicate_of_lt hi]
  · intro j r hr t ht hhit
    rw [h.computeMask]
    exact getElem?_mask_computed hok.chunks hr ht hhit
  · intro j r hr
    rw [h.computeMask, ← NewReq.length_filter_selected
      (NewReq.selects_selected r kCache x.key (b.start j) htopk hratio)]
    congr 1
    refine List.filter_congr fun t ht => ?_
    rw [List.getD_eq_getElem?_getD, getElem?_mask_hit hok.chunks hr ht]
    rfl
  · intro j r hr t ht t' ht' hkept hdropped
    have hsel := NewReq.selects_selected r kCache x.key (b.start j) htopk hratio
    rw [h.computeMask, getElem?_mask_hit hok.chunks hr ht] at hkept
    rw [h.computeMask, getElem?_mask_hit hok.chunks hr ht'] at hdropped
    apply hsel.largest t (List.contains_iff_mem.mp (Option.some.inj hkept)) t' ht'
    intro hmem
    exact hdropped (congrArg some (List.contains_iff_mem.mpr hmem))
  · rw [h.computeMask]
    exact hcut.query
  · rw [h.computeMask]
    exact hcut.key
  · rw [h.computeMask]
    exact hcut.value
  · rw [h.computeMask]
    exact hcut.slotMapping
  · rw [h.computeMask, hcut.queryStartLoc]
    refine List.ext_getElem? fun j => ?_
    rw [List.getElem?_map, List.getElem?_scanl, hkeptLens]
    split_ifs with hj
    · rw [getElem?_queryStartLoc hj, Option.map_some, count_take_mask kCache x.key htopk hratio hok.chunks,
        List.sum_eq_foldl]
    · rw [List.getElem?_eq_none]
      · rfl
      · show (b.queryLens.scanl (· + ·) 0).length ≤ j
        rw [List.length_scanl]
        omega
  · intro j s n hs hn
    obtain ⟨hlast, hpos⟩ := getElem?_mask_last htopk hratio hok hs hn
    obtain ⟨rfl, -⟩ := request_cases hs hn
    obtain ⟨hj, hget⟩ := List.getElem?_eq_some_iff.mp hn
    have hnext : (b.queryLens.take (j + 1)).sum = (b.queryLens.take j).sum + n := by
      rw [List.take_add_one, hn, List.sum_append]
      rfl
    have hcount := count_take_mask kCache x.key htopk hratio hok.chunks (j + 1)
    have hbefore : (b.queryLens.take j).sum + n = (b.queryLens.take j).sum + n - 1 + 1 := by omega
    rw [hnext, hbefore, List.take_add_one, hlast, List.count_append] at hcount
    have hkept := getElem?_keep_range hlast
    refine ⟨((b.keptLens ratio).take (j + 1)).sum - 1, ?_, ?_⟩
    · rw [hcut.logits, List.getElem?_map, List.getElem?_tail, List.getElem?_scanl, hkeptLens,
        if_pos (by omega), ← List.sum_eq_foldl]
      rfl
    · have hone : (((b.keptLens ratio).take (j + 1)).sum : Int) - 1 =
          (((b.mask topk kCache x.key ratio).take ((b.queryLens.take j).sum + n - 1)).count true :
            Nat) := by
        rw [← hcount]
        show ((_ + 1 : Nat) : Int) - 1 = _
        omega
      rw [h.computeMask, tokenAt, hone, if_pos (Int.natCast_nonneg _), Int.toNat_natCast, ← hlen]
      exact hkept

/-! ### A batch that does not fit into the mask -/

theorem length_updateReqComputeMask {m m' : BlendMetaData} {start chunkEnd stop : Nat}
    {hits : List Bool} {sel : List Nat}
    (h : m.updateReqComputeMask start chunkEnd stop hits sel = some m') :
    m'.computeMask.length = m.computeMask.length := by
  unfold BlendMetaData.updateReqComputeMask at h
  obtain ⟨rows, hrows, h⟩ := Option.bind_eq_some_iff.mp h
  set chunks := (m.computeMask.take chunkEnd).drop start
  have hsize : chunks.length = hits.length * (chunks.length / hits.length) := by
    by_contra hne
    unfold reshape at hrows
    rw [if_neg hne] at hrows
    cases hrows
  rw [reshape_eq false hsize] at hrows
  obtain rfl := Option.some.inj hrows
  dsimp only at h
  rw [flatten_zipWith_rows] at h
  split_ifs at h
  rw [foldl_set_true, List.length_map, List.length_range, ← hsize] at h
  obtain rfl := Option.some.inj h
  dsimp only
  rw [length_fillTrue, List.length_append, List.length_append, List.length_take, List.length_map,
    List.length_range, List.length_drop, List.length_drop, List.length_take]
  omega

variable {attn : AttnMetadata σ}

theorem length_blendRequest {acc acc' : BlendMetaData × Bool} {req : ReqMeta}
    (h : blendRequest cfg topk kCache ratio attn key acc req = some acc') :
    acc'.1.computeMask.length = acc.1.computeMask.length ∧ acc'.2 = (acc.2 || req.needBlend) := by
  unfold blendRequest at h
  obtain ⟨start, -, h⟩ := Option.bind_eq_some_iff.mp h
  obtain ⟨stop, -, h⟩ := Option.bind_eq_some_iff.mp h
  by_cases hneed : req.needBlend = false
  · rw [if_pos hneed] at h
    obtain rfl := Option.some.inj h
    rw [hneed, Bool.or_false]
    exact ⟨length_fillTrue _ _ _, rfl⟩
  · rw [if_neg hneed] at h
    rw [Bool.not_eq_false] at hneed
    obtain ⟨table, -, h⟩ := Option.bind_eq_some_iff.mp h
    dsimp only at h
    rw [Option.ite_none_left_eq_some] at h
    obtain ⟨-, h⟩ := h
    obtain ⟨ids, -, h⟩ := Option.bind_eq_some_iff.mp h
    obtain ⟨rows, -, h⟩ := Option.bind_eq_some_iff.mp h
    obtain ⟨golden, -, h⟩ := Option.bind_eq_some_iff.mp h
    rw [Option.ite_none_left_eq_some] at h
    obtain ⟨-, h⟩ := h
    obtain ⟨places, -, h⟩ := Option.bind_eq_some_iff.mp h
    obtain ⟨sel, -, h⟩ := Option.bind_eq_some_iff.mp h
    obtain ⟨m', hm', h⟩ := Option.bind_eq_some_iff.mp h
    obtain rfl := Option.some.inj h
    rw [hneed, Bool.or_true]
    have hlen := length_updateReqComputeMask hm'
    exact ⟨hlen, rfl⟩

theorem length_foldlM_blendRequest {reqs : List ReqMeta} {acc acc' : BlendMetaData × Bool}
    (h : reqs.foldlM (blendRequest cfg topk kCache ratio attn key) acc = some acc') :
    acc'.1.computeMask.length = acc.1.computeMask.length ∧
      acc'.2 = (acc.2 || reqs.any ReqMeta.needBlend) := by
  induction reqs generalizing acc with
  | nil =>
    obtain rfl := Option.some.inj h
    exact ⟨rfl, (Bool.or_false _).symm⟩
  | cons req reqs ih =>
    rw [List.foldlM_cons] at h
    obtain ⟨next, hnext, h⟩ := Option.bind_eq_some_iff.mp h
    obtain ⟨hlen, hneed⟩ := length_blendRequest hnext
    obtain ⟨hlen', hneed'⟩ := ih h
    exact ⟨hlen'.trans hlen, by rw [hneed', hneed, List.any_cons, Bool.or_assoc]⟩

theorem any_reqMetas (i : Nat) (rs : List (NewReq cfg η)) :
    (reqMetas i rs).any ReqMeta.needBlend = anyBlended rs := by
  induction rs generalizing i with
  | nil => rfl
  | cons r rs ih =>
    unfold anyBlended
    rw [reqMetas, List.any_append, ih, List.any_cons]
    congr 1
    split_ifs with hchunks
    · unfold NewReq.hits
      rw [hchunks]
      rfl
    · rw [List.any_cons, List.any_nil, Bool.or_false]
      rfl

theorem run_overfull {buffers : Buffers cfg} {layerName : String}
    (hlayer : cfg.computeMeta layerName = some ratio) (hfull : cfg.maxModelLen < b.total)
    (h : run cfg topk kCache buffers x layerName = some res) :
    res.metadata.computeMask.length = cfg.maxModelLen ∧ anyBlended b.news = false := by
  have hlen : (b.metadata buffers).resetComputeMask.computeMask.length = cfg.maxModelLen := by
    unfold BlendMetaData.resetComputeMask Batch.metadata
    dsimp only
    rw [length_fillTrue, List.length_replicate, List.length_take, buffers.forwardMask_length,
      Nat.min_eq_right hfull.le]
  unfold run at h
  rw [Batch.buildSparseMeta_eq, Option.bind_eq_bind, Option.bind_some] at h
  unfold attentionBegin at h
  rw [hlayer] at h
  obtain ⟨⟨m, u⟩, hfold, h⟩ := Option.bind_eq_some_iff.mp h
  obtain ⟨hmask, hneed⟩ := length_foldlM_blendRequest hfold
  have hrequests : (b.metadata buffers).requests = reqMetas b.decodes.length b.news := rfl
  rw [hrequests, any_reqMetas, Bool.false_or] at hneed
  dsimp only at hmask hneed h
  rw [hlen] at hmask
  rw [hneed] at h
  split_ifs at h with hany
  · -- the slots cannot be indexed with the mask
    obtain ⟨attn', hattn, -⟩ := Option.bind_eq_some_iff.mp h
    obtain ⟨slots, hslots, -⟩ := Option.bind_eq_some_iff.mp hattn
    unfold index at hslots
    have hne : b.attnMetadata.slotMapping.length ≠ m.computeMask.length := by
      have htotal : b.attnMetadata.slotMapping.length = b.total := b.slotMapping_length
      omega
    rw [if_neg hne] at hslots
    cases hslots
  · obtain rfl := Option.some.inj h
    exact ⟨hmask, Bool.not_eq_true _ ▸ hany⟩

theorem room_of_pruned {buffers : Buffers cfg} {layerName : String}
    (hlayer : cfg.computeMeta layerName = some ratio)
    (h : run cfg topk kCache buffers x layerName = some res) (hpruned : Pruned b kCache ratio x res) :
    b.total ≤ cfg.maxModelLen := by
  by_contra hfull
  obtain ⟨hlen, hany⟩ := run_overfull hlayer (Nat.lt_of_not_le hfull) h
  -- the last token of the batch is beyond the mask
  have hbeyond : ∀ p, b.total = p + 1 → res.metadata.computeMask[p]? ≠ some true := by
    intro p hp
    rw [List.getElem?_eq_none (by omega)]
    exact (Option.some_ne_none true).symm
  rcases List.eq_nil_or_concat b.news with hnil | ⟨news, r, hconcat⟩
  · have htotal : b.total = b.decodes.length := by
      unfold Batch.total
      rw [hnil]
      rfl
    exact hbeyond (b.total - 1) (by omega) (hpruned.decodes _ (by omega))
  · have hr : b.news[news.length]? = some r := by
      rw [hconcat, List.concat_eq_append, List.getElem?_concat_length]
    have htotal : b.total = b.start news.length + r.queryLen := by
      unfold Batch.total Batch.start
      rw [hconcat, List.concat_eq_append, List.map_append, List.sum_append,
        List.take_left' (List.length_map _), Nat.add_assoc]
      rfl
    have hpos := r.queryLen_pos
    have hblend : r.hits.count true = 0 := by
      have hr := List.any_eq_false.mp hany r (List.mem_of_getElem? hr)
      rw [decide_eq_true_iff] at hr
      omega
    have hhit : r.hit (r.queryLen - 1) = false := by
      rw [← Bool.not_eq_true]
      intro hhit
      have hmem := NewReq.mem_hitTokens.mpr ⟨Nat.sub_lt hpos Nat.one_pos, hhit⟩
      rw [NewReq.hitTokens_nil hblend] at hmem
      exact List.not_mem_nil hmem
    have hkept := hpruned.computed _ r hr (r.queryLen - 1) (by omega) hhit
    exact hbeyond (b.start news.length + (r.queryLen - 1)) (by omega) hkept

theorem chunks_of_pruned (h : Ran x (b.mask topk kCache x.key ratio) (b.keptLens ratio) res)
    (hpruned : Pruned b kCache ratio x res) : ∀ r ∈ b.news, r.chunksMeta ≠ [] := by
  intro r hr hnil
  obtain ⟨j, hr⟩ := List.getElem?_of_mem hr
  have hhit : r.hit 0 = false := by
    unfold NewReq.hit NewReq.hits
    rw [hnil]
    rfl
  have hkept := hpruned.computed j r hr 0 r.queryLen_pos hhit
  rw [h.computeMask, Batch.getElem?_mask hr r.queryLen_pos, NewReq.kept, hnil] at hkept
  exact Bool.false_ne_true (Option.some.inj hkept)

theorem exists_topk_notMem {r : NewReq cfg η} (hhit : r.hit (r.queryLen - 1) = true)
    (hmany : r.topKNum ratio < r.hitTokens.countP fun t =>
      r.keyDiff kCache key (b.start j) (r.queryLen - 1) ≤ r.keyDiff kCache key (b.start j) t) :
    ∃ topk, TopKOk topk ∧ r.queryLen - 1 ∉ r.selected topk kCache key ratio (b.start j) := by
  have hpos := r.queryLen_pos
  have hmem : r.queryLen - 1 ∈ r.hitTokens := NewReq.mem_hitTokens.mpr ⟨by omega, hhit⟩
  obtain ⟨i, hi, hget⟩ := List.mem_iff_getElem.mp hmem
  have hgetD : r.hitTokens.getD i 0 = r.queryLen - 1 := (List.getD_eq_getElem _ _ hi).trans hget
  set diffs := r.hitTokens.map (r.keyDiff kCache key (b.start j)) with hdiffs
  have hlen : diffs.length = r.hitTokens.length := List.length_map _
  have hcount : r.topKNum ratio < (List.range diffs.length).countP fun p =>
      OrderDual.toDual (diffs.getD p 0) ≤ OrderDual.toDual (diffs.getD i 0) := by
    refine hmany.trans_eq ?_
    conv_lhs => rw [← map_getD_range r.hitTokens 0]
    rw [List.countP_map, hlen]
    apply List.countP_congr
    intro p hp
    rw [hdiffs, NewReq.getD_keyDiff (List.mem_range.mp hp), NewReq.getD_keyDiff hi, hgetD]
    rfl
  obtain ⟨sel, hsel, hnot⟩ :=
    exists_smallest_notMem (f := fun p => OrderDual.toDual (diffs.getD p 0)) hcount
  refine ⟨fun diff k => if diff = diffs ∧ k = r.topKNum ratio then sel
    else smallest (fun p => OrderDual.toDual (diff.getD p 0)) diff.length k, ?_, ?_⟩
  · intro diff k hk
    dsimp only
    split_ifs with hsame
    · obtain ⟨rfl, rfl⟩ := hsame
      exact hsel
    · exact smallest_spec _ hk
  · unfold NewReq.selected
    dsimp only
    rw [if_pos ⟨hdiffs.symm, rfl⟩]
    intro hmem
    obtain ⟨p, hp, hpi⟩ := List.mem_map.mp hmem
    have hp' : p < r.hitTokens.length := hlen ▸ hsel.lt p hp
    rw [List.getD_eq_getElem _ _ hp', ← hget] at hpi
    have heq := (List.Nodup.getElem_inj_iff NewReq.nodup_hitTokens).mp hpi
    exact hnot (heq ▸ hp)

theorem mem_of_tokenAt {tokens : List Nat} {i : Int} {p : Nat} (h : tokenAt tokens i = some p) :
    p ∈ tokens := by
  unfold tokenAt at h
  split_ifs at h
  · exact List.mem_of_getElem? h
  · exact List.mem_of_getElem? h

theorem selected_of_pruned {r : NewReq cfg η}
    (h : Ran x (b.mask topk kCache x.key ratio) (b.keptLens ratio) res)
    (hpruned : Pruned b kCache ratio x res) (hchunks : ∀ r ∈ b.news, r.chunksMeta ≠ [])
    (hr : b.news[j]? = some r) (hhit : r.hit (r.queryLen - 1) = true) :
    r.queryLen - 1 ∈ r.selected topk kCache x.key ratio (b.start j) := by
  have hpos := r.queryLen_pos
  have hlen : (b.mask topk kCache x.key ratio).length = b.total := Batch.length_mask
  have hmem : r.queryLen - 1 ∈ r.hitTokens := NewReq.mem_hitTokens.mpr ⟨by omega, hhit⟩
  have hn : b.queryLens[b.decodes.length + j]? = some r.queryLen := by
    unfold Batch.queryLens
    rw [List.getElem?_append_right (by rw [List.length_replicate]; omega), List.length_replicate,
      Nat.add_sub_cancel_left, List.getElem?_map, hr]
    rfl
  have hs : b.attnMetadata.queryStartLoc[b.decodes.length + j]? = some (b.start j) := by
    rw [getElem?_queryStartLoc (List.getElem?_eq_some_iff.mp hn).1.le, start_eq]
  obtain ⟨i, -, hi⟩ := hpruned.logits _ _ _ hs hn
  have hkept := mem_of_tokenAt hi
  rw [h.computeMask, ← hlen, mem_keep_range, Nat.add_sub_assoc hpos,
    getElem?_mask_hit hchunks hr hmem] at hkept
  exact List.contains_iff_mem.mp (Option.some.inj hkept)

theorem exists_topkOk : ∃ topk, TopKOk topk :=
  ⟨fun diff k => smallest (fun p => OrderDual.toDual (diff.getD p 0)) diff.length k,
    fun _ _ hk => smallest_spec _ hk⟩

end Main

/-! ### A small batch -/

/-- Blocks of one token, and half of the loaded tokens. -/
def Config.small : Config where
  blockSize := 1
  maxModelLen := 8
  computeMeta := fun _ => some (1 / 2)
  blockSize_pos := Nat.one_pos

def Buffers.small : Buffers .small where
  forwardMask := List.replicate 8 false
  metadata :=
    { requests := []
      computeMask := []
      chunkBlksHitMask := List.replicate 8 false
      queryLens := []
      blendStartReqIdx := 0
      needReIndex := false }
  forwardMask_length := rfl
  hitMask_length := rfl

/-- A chunk of two blocks, of which the first one was loaded. -/
def smallChunk : ChunkMetaData Unit where
  startTokenDix := 0
  chunkTokensLen := 2
  startBlkIdx := 0
  chunkBlksLen := 2
  cachedStartPosition := 0
  vllmBlkIds := [0, 1]
  chunkBlksHash := [(), ()]
  storeHits := [true, false]

theorem start_small : ∀ c ∈ [smallChunk].head?,
    c.startTokenDix = (0 * Config.small.blockSize : Nat) := by
  rintro c hc
  obtain rfl := Option.some.inj hc
  rfl

/-- The chunk, and a question of one token. -/
def NewReq.small : NewReq .small Unit where
  chunksMeta := [smallChunk]
  prefixBlks := 0
  queryLen := 3
  blocks := [0, 1, 2]
  queryLen_pos := Nat.succ_pos 2
  start := start_small
  chunks_le := Nat.le_succ 2
  blocks_cover := Nat.le_refl 3

theorem start_plain : ∀ c ∈ ([] : List (ChunkMetaData Unit)).head?,
    c.startTokenDix = (0 * Config.small.blockSize : Nat) := fun _ hc => by cases hc

/-- A request of one token without chunks. -/
def NewReq.plain : NewReq .small Unit where
  chunksMeta := []
  prefixBlks := 0
  queryLen := 1
  blocks := [3]
  queryLen_pos := Nat.one_pos
  start := start_plain
  chunks_le := Nat.zero_le 1
  blocks_cover := Nat.le_refl 1

/-- A decode request, and the request with the chunk. -/
def Batch.small : Batch .small Unit Nat where
  decodes := [(5, [4])]
  news := [.small]
  slotMapping := [4, 0, 1, 2]
  slotMapping_length := rfl

/-- A request without chunks comes before the one with the chunk. -/
def Batch.mixed : Batch .small Unit Nat where
  decodes := []
  news := [.plain, .small]
  slotMapping := [3, 0, 1, 2]
  slotMapping_length := rfl

/-- Keys of one number for the four tokens of a batch. -/
def Tensors.small (b : Batch .small Unit Nat) (h : b.total = 4) : Tensors .small b Nat Nat Nat where
  query := [10, 11, 12, 13]
  key := [[0], [1], [2], [3]]
  value := [20, 21, 22, 23]
  output := none
  query_length := h.symm
  key_length := h.symm
  value_length := h.symm

theorem half_mem_Icc : (1 / 2 : ℚ) ∈ Set.Icc 0 1 := by
  constructor <;> norm_num

theorem prunable_small :
    Prunable Batch.small (fun _ _ => [0]) (1 / 2) (Tensors.small Batch.small rfl).key where
  chunks r hr := by
    obtain rfl := List.mem_singleton.mp hr
    exact List.cons_ne_nil _ _
  room := by decide
  last j r hr hhit := by
    obtain rfl := List.mem_singleton.mp (List.mem_of_getElem? hr)
    exact absurd hhit (by decide)

end UnifiedCache.Sparse.Blend
