import UnifiedCache.Sparse.Proofs.UnifiedAttentionProofs
import Mathlib.Analysis.Complex.Exponential

/-!
# The kernels leave the attention

Programs may share queries, but what they write for a query is the same. So whatever the order of the
programs, the element of a query, a head and a dimension becomes its attention: by one program that
passes over all tiles, or by a program for each segment and one that combines them.
-/

open Function Finset Lib
open Lib.OnlineSoftmax (expBot against Accum ExpLaws)

namespace UnifiedCache.Sparse.UnifiedAttention

variable {α : Type}

/-! ## A store -/

section Store

variable {V : Type} {rows cols a : Nat} {offset : Nat → Nat → Nat} {tile : Nat → Nat → V}
  {mask : Nat → Nat → Bool} {v : V}

theorem store_element {m d : Nat} (h : mask m d → offset m d = a → tile m d = v) (mem : Nat → V) :
    (if mask m d then update mem (offset m d) (tile m d) else mem) a = mem a ∨
      (if mask m d then update mem (offset m d) (tile m d) else mem) a = v := by
  by_cases hmask : mask m d
  · rw [if_pos hmask]
    by_cases ha : a = offset m d
    · subst ha
      rw [update_self]
      exact .inr (h hmask rfl)
    · exact .inl (update_of_ne ha _ _)
  · rw [if_neg hmask]
    exact .inl rfl

theorem writes_elements (h : ∀ m < rows, ∀ d < cols, mask m d → offset m d = a → tile m d = v) :
    Programs.Writes
      (fun (p : Nat × Nat) mem =>
        if mask p.1 p.2 then update mem (offset p.1 p.2) (tile p.1 p.2) else mem)
      ((List.range rows).product (List.range cols)) (fun mem : Nat → V => mem a) v := by
  rintro ⟨m, d⟩ hmd mem
  obtain ⟨hm, hd⟩ := List.pair_mem_product.mp hmd
  exact store_element (h m (List.mem_range.mp hm) d (List.mem_range.mp hd)) mem

theorem store_writes (h : ∀ m < rows, ∀ d < cols, mask m d → offset m d = a → tile m d = v)
    (mem : Nat → V) :
    store rows cols offset tile mask mem a = mem a ∨ store rows cols offset tile mask mem a = v :=
  (writes_elements h).foldl mem

theorem store_left (h : ∀ m < rows, ∀ d < cols, mask m d → offset m d ≠ a) (mem : Nat → V) :
    store rows cols offset tile mask mem a = mem a := by
  have hwrites : store rows cols offset tile mask mem a = mem a ∨
      store rows cols offset tile mask mem a = mem a :=
    store_writes (fun m hm d hd hmask ha => absurd ha (h m hm d hd hmask)) mem
  rwa [or_self] at hwrites

theorem store_written (h : ∀ m < rows, ∀ d < cols, mask m d → offset m d = a → tile m d = v)
    {m d : Nat} (hm : m < rows) (hd : d < cols) (hmask : mask m d) (hoffset : offset m d = a)
    (mem : Nat → V) : store rows cols offset tile mask mem a = v := by
  have hmd : (m, d) ∈ (List.range rows).product (List.range cols) :=
    List.pair_mem_product.mpr ⟨List.mem_range.mpr hm, List.mem_range.mpr hd⟩
  refine (writes_elements h).foldl_of_mem hmd (fun mem => ?_) mem
  show (if mask m d then update mem (offset m d) (tile m d) else mem) a = v
  rw [if_pos hmask, ← hoffset, update_self]
  exact h m hm d hd hmask hoffset

end Store

namespace Batch

variable {batch : Batch α} {out : Tensor α} {nextPowerOf2 : Nat → Nat} {args : Args α}
  {b : QBlock} {m i t head d s : Nat}

/-- Where an element of the output lies. -/
def place (out : Tensor α) (t head d : Nat) : Nat := t * out.stride 0 + head * out.stride 1 + d

theorem get_data (wf : batch.WellFormed out) (data : Nat → α) (t head d : Nat) :
    ({ out with data } : Tensor α).get [t, head, d] = data (place out t head d) :=
  Tensor.get_three (t := { out with data }) wf.out_rank t head d

theorem place_inj (wf : batch.WellFormed out) {t' head' d' : Nat} (hhead : head < batch.numQueryHeads)
    (hhead' : head' < batch.numQueryHeads) (hd : d < batch.q.size 2) (hd' : d' < batch.q.size 2)
    (heq : place out t head d = place out t' head' d') : t = t' ∧ head = head' ∧ d = d' := by
  have hdim := Nat.lt_of_lt_of_le hd wf.out_dims
  have hdim' := Nat.lt_of_lt_of_le hd' wf.out_dims
  unfold place at heq
  rw [Nat.add_assoc, Nat.add_assoc] at heq
  obtain ⟨ht, hrest⟩ := Strides.mul_add_inj
    (Nat.lt_of_lt_of_le (Strides.mul_add_lt hhead hdim) wf.out_heads)
    (Nat.lt_of_lt_of_le (Strides.mul_add_lt hhead' hdim') wf.out_heads) heq
  exact ⟨ht, Strides.mul_add_inj hdim hdim' hrest⟩

theorem Query.numTiles_pos (hq : batch.Query i t head) (wf : batch.WellFormed out) :
    0 < batch.numTiles i := by
  unfold numTiles
  rw [lt_cdivFn_iff wf.blockSize_pos, Nat.zero_mul]
  exact hq.seqLen_pos wf

variable [Field α] [LinearOrder α] {exp : α → α}

theorem lt_padded (hl : Launch batch out nextPowerOf2 args) (hd : d < batch.q.size 2) :
    d < args.headSizePadded := by
  obtain ⟨-, hnext, rfl⟩ := hl
  exact Nat.lt_of_lt_of_le hd (hnext _)

/-! ## All tiles at once -/

/-- **What a row ends with**, after all tiles. -/
theorem IsRow.attention (hrow : batch.IsRow b m i t head) (h : ExpLaws exp)
    (hl : Launch batch out nextPowerOf2 args) (hd : d < batch.q.size 2) :
    (args.loop b exp (List.range (args.numBlocks b))).acc m d /
      (args.loop b exp (List.range (args.numBlocks b))).L m = batch.attention exp i t head d := by
  have hblocks : args.numBlocks b = batch.numTiles i := by
    obtain ⟨-, -, rfl⟩ := hl
    rw [← hrow.seq]
    rfl
  obtain ⟨ref, hholds⟩ := rowLoop_holds h batch i t head (hrow.numTiles_pos hl.wf)
  rw [hblocks, List.range_eq_range']
  rw [← hrow.loop hl] at hholds
  exact (hholds.div h ⟨d, hd⟩).trans (hrow.softmax_eq hl.wf ⟨d, hd⟩)

/-- **The kernel over all tiles** leaves the attention, in every order. -/
theorem Query.kernel2d_run (hq : batch.Query i t head) (h : ExpLaws exp)
    (hl : Launch batch out nextPowerOf2 args) (hd : d < batch.q.size 2) {order : List (Nat × Nat)}
    (horder : order.Perm ((List.range batch.totalNumQBlocks).product (List.range batch.numKvHeads))) :
    Programs.run (kernelUnifiedAttention2d exp args (out.stride 0) (out.stride 1)) order out.data
      (place out t head d) = batch.attention exp i t head d := by
  have htile : ∀ {g kvHead m d' : Nat}, args.mask (args.qBlock g kvHead) m d' = true →
      place out (args.queryOffset0 (args.qBlock g kvHead) m) (args.queryOffset1 (args.qBlock g kvHead) m) d' =
        place out t head d →
      (args.loop (args.qBlock g kvHead) exp (List.range (args.numBlocks (args.qBlock g kvHead)))).acc m d' /
        (args.loop (args.qBlock g kvHead) exp (List.range (args.numBlocks (args.qBlock g kvHead)))).L m =
        batch.attention exp i t head d := by
    intro g kvHead m d' hmask hplace
    obtain ⟨hdim, h0, h1⟩ := (mask_eq_true hl).mp hmask
    have hrow := isRow_of_mask hl (Nat.zero_lt_of_lt hq.seq_lt) rfl h0 h1
    obtain ⟨ht, hhead, rfl⟩ := place_inj hl.wf hrow.head_lt hq.head_lt hdim hd hplace
    exact (hq.isRow hl rfl h0 h1 ht hhead).attention h hl hdim
  have hmem : (batch.blockOf i t, head / batch.numQueriesPerKv) ∈ order :=
    horder.symm.subset (List.pair_mem_product.mpr
      ⟨List.mem_range.mpr (hq.blockOf_lt hl.wf), List.mem_range.mpr (hq.kvHead_lt hl.wf)⟩)
  have hwrites : Programs.Writes (kernelUnifiedAttention2d exp args (out.stride 0) (out.stride 1)) order
      (fun mem : Nat → α => mem (place out t head d)) (batch.attention exp i t head d) := by
    rintro ⟨g, kvHead⟩ - mem
    unfold kernelUnifiedAttention2d
    show (if _ then mem else _) _ = _ ∨ (if _ then mem else _) _ = _
    split
    · exact .inl rfl
    · exact store_writes (fun m _ d' _ hmask hplace => htile hmask hplace) mem
  refine hwrites.foldl_of_mem hmem (fun mem => ?_) out.data
  have hrow := hq.isRow_blockOf hl
  unfold kernelUnifiedAttention2d
  show (if _ then mem else _) _ = _
  rw [if_neg (hrow.runs hl)]
  refine store_written (fun m _ d' _ hmask hplace => htile hmask hplace) (m := batch.rowOf i t head)
    (d := d) ?_ ?_ ?_ ?_ mem
  · obtain ⟨wf, -, rfl⟩ := hl
    exact rowOf_lt wf i t head
  · exact lt_padded hl hd
  · exact (mask_eq_true hl).mpr ⟨hd, hrow.queryMask0 hl, hrow.queryMask1 hl⟩
  · show place out _ _ d = place out t head d
    rw [hrow.queryOffset0 hl, hrow.queryOffset1 hl]

/-! ## Segments -/

section Parts

omit [Field α] [LinearOrder α]

/-- The number of tiles of a segment. -/
def segTiles (batch : Batch α) (i : Nat) : Nat :=
  blocksPerSegment (batch.seqLen i) numSegments (batch.v.size 1)

/-- The tile after a segment. -/
def segLast (batch : Batch α) (i s : Nat) : Nat := min ((s + 1) * batch.segTiles i) (batch.numTiles i)

/-- The number of segments that have keys. -/
def actNumSegments (batch : Batch α) (i : Nat) : Nat :=
  cdivFn (batch.seqLen i) (batch.segTiles i * batch.v.size 1)

/-- The keys of a segment. -/
def part (batch : Batch α) (i s : Nat) : Finset Nat :=
  batch.keysOf (s * batch.segTiles i) (batch.segLast i s)

variable (wf : batch.WellFormed out) (hlen : 0 < batch.seqLen i)

include wf

theorem segment_pos : 0 < numSegments * batch.v.size 1 := Nat.mul_pos (by decide) wf.blockSize_pos

include hlen

theorem segTiles_pos : 0 < batch.segTiles i := by
  unfold segTiles blocksPerSegment
  rwa [lt_cdivFn_iff (segment_pos wf), Nat.zero_mul]

theorem lt_actNumSegments :
    s < batch.actNumSegments i ↔ s * batch.segTiles i * batch.v.size 1 < batch.seqLen i := by
  unfold actNumSegments
  rw [lt_cdivFn_iff (Nat.mul_pos (segTiles_pos wf hlen) wf.blockSize_pos), Nat.mul_assoc]

theorem actNumSegments_le : batch.actNumSegments i ≤ numSegments := by
  by_contra hlt
  have hshort := (lt_actNumSegments wf hlen).mp (Nat.lt_of_not_le hlt)
  rw [Nat.mul_comm numSegments, Nat.mul_assoc] at hshort
  exact Nat.lt_irrefl _ ((lt_cdivFn_iff (segment_pos wf)).mpr hshort)

theorem segFirst_lt (hs : s < batch.actNumSegments i) : s * batch.segTiles i < batch.segLast i s := by
  refine Nat.lt_min.mpr ⟨?_, ?_⟩
  · exact Nat.mul_lt_mul_of_pos_right (Nat.lt_succ_self s) (segTiles_pos wf hlen)
  · exact (lt_cdivFn_iff wf.blockSize_pos).mpr ((lt_actNumSegments wf hlen).mp hs)

theorem mem_part {k : Nat} :
    k ∈ batch.part i s ↔
      k ∈ batch.keysOf 0 (batch.numTiles i) ∧ k / batch.v.size 1 / batch.segTiles i = s := by
  have hpos := segTiles_pos wf hlen
  unfold part keysOf segLast
  rw [mem_Ico, mem_Ico, Nat.zero_mul, ← Nat.le_div_iff_mul_le wf.blockSize_pos,
    ← Nat.div_lt_iff_lt_mul wf.blockSize_pos, ← Nat.div_lt_iff_lt_mul wf.blockSize_pos, Nat.lt_min,
    Nat.succ_mul, Nat.div_eq_iff hpos]
  omega

/-- **The segments share the keys.** -/
theorem parts :
    (range (batch.actNumSegments i)).biUnion (batch.part i) = batch.keysOf 0 (batch.numTiles i) := by
  ext k
  rw [mem_biUnion]
  constructor
  · rintro ⟨s, -, hk⟩
    exact ((mem_part wf hlen).mp hk).1
  · intro hk
    refine ⟨k / batch.v.size 1 / batch.segTiles i, mem_range.mpr ?_, (mem_part wf hlen).mpr ⟨hk, rfl⟩⟩
    have htile : k / batch.v.size 1 < batch.numTiles i :=
      (Nat.div_lt_iff_lt_mul wf.blockSize_pos).mpr (mem_Ico.mp hk).2
    rw [lt_actNumSegments wf hlen]
    exact Nat.lt_of_le_of_lt (Nat.mul_le_mul_right _ (Nat.div_mul_le_self _ _))
      ((lt_cdivFn_iff wf.blockSize_pos).mp htile)

theorem parts_disjoint (segments : Set Nat) : segments.PairwiseDisjoint (batch.part i) := by
  intro s _ s' _ hne
  refine disjoint_left.mpr fun k hk hk' => hne ?_
  rw [← ((mem_part wf hlen).mp hk).2, ((mem_part wf hlen).mp hk').2]

end Parts

/-- What a row ends with, after a segment. -/
def segRow (batch : Batch α) (exp : α → α) (i t head s : Nat) : Accum α (Fin (batch.q.size 2)) :=
  batch.rowLoop exp i t head
    (List.range' (s * batch.segTiles i) (batch.segLast i s - s * batch.segTiles i))

/-- **The segments together** are all tiles. -/
theorem Query.combine (hq : batch.Query i t head) (h : ExpLaws exp) (wf : batch.WellFormed out) (ref : α)
    (d : Fin (batch.q.size 2)) :
    (∑ s ∈ range (batch.actNumSegments i), (batch.segRow exp i t head s).acc d *
          expBot exp (against (batch.segRow exp i t head s).ref ref)) /
        ∑ s ∈ range (batch.actNumSegments i), (batch.segRow exp i t head s).sum *
            expBot exp (against (batch.segRow exp i t head s).ref ref) =
      batch.attention exp i t head d := by
  have hlen := hq.seqLen_pos wf
  rw [← hq.softmax_eq wf, ← parts wf hlen]
  refine OnlineSoftmax.combine h (fun s hs => ?_) (parts_disjoint wf hlen _) ref d
  exact rowLoop_holds h batch i t head (segFirst_lt wf hlen (mem_range.mp hs))

/-- Where the reference and the sum of a segment lie. -/
def segmPlace (batch : Batch α) (t head s : Nat) : Nat :=
  t * (batch.numQueryHeads * numSegments) + head * numSegments + s

/-- What the memories have of a row of a segment. -/
def segmRow (batch : Batch α) (padded : Nat) (segm : Segments α) (t head s : Nat) :
    Accum α (Fin (batch.q.size 2)) :=
  ⟨segm.max (batch.segmPlace t head s), segm.expsum (batch.segmPlace t head s),
    fun d => segm.output (batch.segmPlace t head s * padded + d)⟩

omit [Field α] [LinearOrder α] in
theorem segmPlace_inj {t' head' s' : Nat} (hhead : head < batch.numQueryHeads)
    (hhead' : head' < batch.numQueryHeads) (hs : s < numSegments) (hs' : s' < numSegments)
    (heq : batch.segmPlace t head s = batch.segmPlace t' head' s') : t = t' ∧ head = head' ∧ s = s' := by
  unfold segmPlace at heq
  rw [Nat.add_assoc, Nat.add_assoc] at heq
  obtain ⟨ht, hrest⟩ := Strides.mul_add_inj (Strides.mul_add_lt hhead hs) (Strides.mul_add_lt hhead' hs') heq
  exact ⟨ht, Strides.mul_add_inj hs hs' hrest⟩

/-! ## The kernel over the segments -/

/-- What a program of the kernel has after its loop. -/
def segmTiles (exp : α → α) (args : Args α) (b : QBlock) (s : Nat) : Tiles α :=
  let blocks := blocksPerSegment (args.seqLens b.seqIdx) numSegments args.blockSize
  args.loop b exp (List.range' (s * blocks) (min ((s + 1) * blocks) (args.numBlocks b) - s * blocks))

theorem IsRow.segmTiles (hrow : batch.IsRow b m i t head) (hl : Launch batch out nextPowerOf2 args)
    (s : Nat) :
    (UnifiedAttention.Batch.segmTiles exp args b s).row (batch.q.size 2) m = batch.segRow exp i t head s := by
  unfold UnifiedAttention.Batch.segmTiles segRow
  rw [← hrow.loop hl, ← hrow.seq]
  obtain ⟨-, -, rfl⟩ := hl
  rfl

/-- A program of the kernel has queries and keys. -/
def Runs (args : Args α) (b : QBlock) (s : Nat) : Prop :=
  b.qBlockLocalIdx * args.blockQ < b.curBatchQueryLen ∧
    s * blocksPerSegment (args.seqLens b.seqIdx) numSegments args.blockSize * args.blockSize <
      args.seqLens b.seqIdx

theorem kernel3d_of_not_runs {g kvHead : Nat} {segm : Segments α}
    (hrun : ¬ Runs args (args.qBlock g kvHead) s) :
    kernelUnifiedAttention3d exp args numSegments (g, kvHead, s) segm = segm := by
  unfold kernelUnifiedAttention3d
  show (if _ then segm else if _ then segm else _) = segm
  split
  · rfl
  · rename_i hquery
    exact if_pos (Nat.le_of_not_lt fun hkey => hrun ⟨Nat.lt_of_not_le hquery, hkey⟩)

/-- The stores of a program. -/
def storeSegment (batch : Batch α) (exp : α → α) (args : Args α) (b : QBlock) (s : Nat)
    (segm : Segments α) : Segments α :=
  let t := segmTiles exp args b s
  let place m := batch.segmPlace (args.queryOffset0 b m) (args.queryOffset1 b m) s
  let rowMask m := args.queryMask0 b m && args.queryMask1 b m
  { output := store 16 args.headSizePadded (fun m d => place m * args.headSizePadded + d) t.acc (args.mask b)
      segm.output
    max := store 16 1 (fun m _ => place m) (fun m _ => t.M m) (fun m _ => rowMask m) segm.max
    expsum := store 16 1 (fun m _ => place m) (fun m _ => t.L m) (fun m _ => rowMask m) segm.expsum }

theorem kernel3d_of_runs (hl : Launch batch out nextPowerOf2 args) {g kvHead : Nat} {segm : Segments α}
    (hrun : Runs args (args.qBlock g kvHead) s) :
    kernelUnifiedAttention3d exp args numSegments (g, kvHead, s) segm =
      batch.storeSegment exp args (args.qBlock g kvHead) s segm := by
  obtain ⟨-, -, rfl⟩ := hl
  have hplace : ∀ t head d, batch.segmPlace t head s * nextPowerOf2 (batch.q.size 2) + d =
      t * (batch.numQueryHeads * numSegments * nextPowerOf2 (batch.q.size 2)) +
        head * (numSegments * nextPowerOf2 (batch.q.size 2)) + s * nextPowerOf2 (batch.q.size 2) + d := by
    intro t head d
    unfold segmPlace
    ring
  unfold kernelUnifiedAttention3d storeSegment
  show (if _ then segm else if _ then segm else _) = _
  rw [if_neg (Nat.not_le_of_lt hrun.1), if_neg (Nat.not_le_of_lt hrun.2)]
  refine congrArg (fun output => Segments.mk output _ _) ?_
  congr 1
  funext m d
  exact (hplace _ _ _).symm

section Kernel3d

variable (hq : batch.Query i t head) (hl : Launch batch out nextPowerOf2 args) (hs : s < numSegments)
  {g kvHead s' : Nat} (segm : Segments α)

include hq hl hs

theorem isRow_of_segmPlace (hs' : s' < numSegments) (h0 : args.queryMask0 (args.qBlock g kvHead) m = true)
    (h1 : args.queryMask1 (args.qBlock g kvHead) m = true)
    (hplace : batch.segmPlace (args.queryOffset0 (args.qBlock g kvHead) m)
      (args.queryOffset1 (args.qBlock g kvHead) m) s' = batch.segmPlace t head s) :
    s' = s ∧ batch.IsRow (args.qBlock g kvHead) m i t head := by
  have hrow := isRow_of_mask hl (Nat.zero_lt_of_lt hq.seq_lt) rfl h0 h1
  obtain ⟨ht, hhead, rfl⟩ := segmPlace_inj hrow.head_lt hq.head_lt hs' hs hplace
  exact ⟨rfl, hq.isRow hl rfl h0 h1 ht hhead⟩

theorem segmRow_written (hm : m < 16) (h0 : args.queryMask0 (args.qBlock g kvHead) m = true)
    (h1 : args.queryMask1 (args.qBlock g kvHead) m = true)
    (hplace : batch.segmPlace (args.queryOffset0 (args.qBlock g kvHead) m)
      (args.queryOffset1 (args.qBlock g kvHead) m) s = batch.segmPlace t head s) :
    batch.segmRow args.headSizePadded (batch.storeSegment exp args (args.qBlock g kvHead) s segm) t head s =
      batch.segRow exp i t head s := by
  have hrow : ∀ m', (args.queryMask0 (args.qBlock g kvHead) m' &&
        args.queryMask1 (args.qBlock g kvHead) m') = true →
      batch.segmPlace (args.queryOffset0 (args.qBlock g kvHead) m')
        (args.queryOffset1 (args.qBlock g kvHead) m') s = batch.segmPlace t head s →
      (segmTiles exp args (args.qBlock g kvHead) s).row (batch.q.size 2) m' =
        batch.segRow exp i t head s := by
    intro m' hmask hplace'
    obtain ⟨h0', h1'⟩ := Bool.and_eq_true_iff.mp hmask
    exact (isRow_of_segmPlace hq hl hs hs h0' h1' hplace').2.segmTiles hl s
  have hmask := Bool.and_eq_true_iff.mpr ⟨h0, h1⟩
  apply Accum.ext
  · exact store_written (fun m' _ _ _ hm' ha => congrArg Accum.ref (hrow m' hm' ha)) hm Nat.one_pos hmask
      hplace _
  · exact store_written (fun m' _ _ _ hm' ha => congrArg Accum.sum (hrow m' hm' ha)) hm Nat.one_pos hmask
      hplace _
  · funext d
    dsimp only [segmRow, storeSegment]
    refine store_written (fun m' _ d' hd' hm' ha => ?_) hm (lt_padded hl d.isLt)
      ((mask_eq_true hl).mpr ⟨d.isLt, h0, h1⟩) ?_ _
    · obtain ⟨-, hmask'⟩ := (mask_eq_true hl).mp hm'
      obtain ⟨hplace', rfl⟩ := Strides.mul_add_inj hd' (lt_padded hl d.isLt) ha
      exact congrFun (congrArg Accum.acc (hrow m' (Bool.and_eq_true_iff.mpr hmask') hplace')) d
    · exact congrArg (fun a => a * args.headSizePadded + (d : Nat)) hplace

/-- **A program** leaves what the memories have of a row of a segment, or makes it what the row ends
with. -/
theorem kernel3d_row (hs' : s' < numSegments) :
    batch.segmRow args.headSizePadded (kernelUnifiedAttention3d exp args numSegments (g, kvHead, s') segm)
        t head s = batch.segmRow args.headSizePadded segm t head s ∨
      batch.segmRow args.headSizePadded (kernelUnifiedAttention3d exp args numSegments (g, kvHead, s') segm)
        t head s = batch.segRow exp i t head s := by
  by_cases hrun : Runs args (args.qBlock g kvHead) s'
  · rw [kernel3d_of_runs hl hrun]
    by_cases hown : ∃ m < 16, args.queryMask0 (args.qBlock g kvHead) m = true ∧
        args.queryMask1 (args.qBlock g kvHead) m = true ∧
        batch.segmPlace (args.queryOffset0 (args.qBlock g kvHead) m)
          (args.queryOffset1 (args.qBlock g kvHead) m) s' = batch.segmPlace t head s
    · obtain ⟨m, hm, h0, h1, hplace⟩ := hown
      obtain ⟨rfl, -⟩ := isRow_of_segmPlace hq hl hs hs' h0 h1 hplace
      exact .inr (segmRow_written hq hl hs segm hm h0 h1 hplace)
    · have hleft : ∀ m < 16, (args.queryMask0 (args.qBlock g kvHead) m &&
            args.queryMask1 (args.qBlock g kvHead) m) = true →
          batch.segmPlace (args.queryOffset0 (args.qBlock g kvHead) m)
            (args.queryOffset1 (args.qBlock g kvHead) m) s' ≠ batch.segmPlace t head s := by
        intro m hm hmask hplace
        obtain ⟨h0, h1⟩ := Bool.and_eq_true_iff.mp hmask
        exact hown ⟨m, hm, h0, h1, hplace⟩
      refine .inl ?_
      simp only [segmRow, storeSegment, Accum.mk.injEq]
      refine ⟨?_, ?_, funext fun d => ?_⟩
      · exact store_left (fun m hm _ _ hmask => hleft m hm hmask) _
      · exact store_left (fun m hm _ _ hmask => hleft m hm hmask) _
      · refine store_left (fun m hm d' hd' hmask ha => ?_) _
        obtain ⟨-, hmask'⟩ := (mask_eq_true hl).mp hmask
        have hplace := (Strides.mul_add_inj hd' (lt_padded hl d.isLt) ha).1
        exact hleft m hm (Bool.and_eq_true_iff.mpr hmask') hplace
  · rw [kernel3d_of_not_runs hrun]
    exact .inl rfl

end Kernel3d

/-- **The memories of the segments**, after all programs. -/
theorem Query.kernel3d_run (hq : batch.Query i t head) (hl : Launch batch out nextPowerOf2 args)
    {order : List (Nat × Nat × Nat)}
    (horder : order.Perm ((List.range batch.totalNumQBlocks).product
      ((List.range batch.numKvHeads).product (List.range numSegments)))) (segm : Segments α)
    (hs : s < batch.actNumSegments i) :
    batch.segmRow args.headSizePadded
        (order.foldl (fun segm pid => kernelUnifiedAttention3d exp args numSegments pid segm) segm) t head
        s = batch.segRow exp i t head s := by
  have hlen := hq.seqLen_pos hl.wf
  have hslt : s < numSegments := Nat.lt_of_lt_of_le hs (actNumSegments_le hl.wf hlen)
  have hmem : (batch.blockOf i t, head / batch.numQueriesPerKv, s) ∈ order :=
    horder.symm.subset (List.pair_mem_product.mpr ⟨List.mem_range.mpr (hq.blockOf_lt hl.wf),
      List.pair_mem_product.mpr ⟨List.mem_range.mpr (hq.kvHead_lt hl.wf), List.mem_range.mpr hslt⟩⟩)
  have hwrites : Programs.Writes
      (fun pid segm => kernelUnifiedAttention3d exp args numSegments pid segm) order
      (fun segm : Segments α => batch.segmRow args.headSizePadded segm t head s)
      (batch.segRow exp i t head s) := by
    rintro ⟨g, kvHead, s'⟩ hpid segm
    have hpid' := (List.pair_mem_product.mp (List.pair_mem_product.mp (horder.subset hpid)).2).2
    exact kernel3d_row hq hl hslt segm (List.mem_range.mp hpid')
  refine hwrites.foldl_of_mem hmem (fun segm => ?_) segm
  have hrow := hq.isRow_blockOf hl
  have hrun : Runs args (args.qBlock (batch.blockOf i t) (head / batch.numQueriesPerKv)) s := by
    refine ⟨Nat.lt_of_not_le (hrow.runs hl), ?_⟩
    have hkey := (lt_actNumSegments hl.wf hlen).mp hs
    rw [hrow.seq]
    obtain ⟨-, -, rfl⟩ := hl
    exact hkey
  rw [kernel3d_of_runs hl hrun]
  refine segmRow_written hq hl hslt segm (rowOf_lt hl.wf i t head) (hrow.queryMask0 hl)
    (hrow.queryMask1 hl) ?_
  rw [hrow.queryOffset0 hl, hrow.queryOffset1 hl]

/-! ## The combination -/

section Reduce

variable (hq : batch.Query i t head) (h : ExpLaws exp) (hl : Launch batch out nextPowerOf2 args)
  {segm : Segments α} (hsegm : ∀ s < batch.actNumSegments i,
    batch.segmRow args.headSizePadded segm t head s = batch.segRow exp i t head s)
  (hd : d < batch.q.size 2)

include hq h hl hsegm hd

/-- **What a program combines** is the attention, if the memories have the rows of the segments. -/
theorem reduceAcc_eq : reduceAcc exp args segm numSegments t head d = batch.attention exp i t head d := by
  have hsub : range (batch.actNumSegments i) ⊆ range numSegments :=
    range_subset_range.mpr (actNumSegments_le hl.wf (hq.seqLen_pos hl.wf))
  have hseq : findSeqIdx args.queryStartLen t args.numSeqs args.blockQ false = i := by
    obtain ⟨wf, -, rfl⟩ := hl
    exact findSeqIdx_eq (searchKey_ordered wf false) hq.seq_lt hq.start_le fun _ => hq.lt_stop
  have hact : cdivFn (args.seqLens i) (blocksPerSegment (args.seqLens i) numSegments args.blockSize *
      args.blockSize) = batch.actNumSegments i := by rw [hl.args_eq]; rfl
  have hheads : args.numQueryHeads = batch.numQueryHeads := by rw [hl.args_eq]; rfl
  have hdim : args.dimMask d = true := by rw [hl.args_eq]; exact decide_eq_true hd
  unfold reduceAcc
  simp only [hseq, hact, hheads, hdim, Bool.and_true]
  generalize WithBot.unbotD (0 : α) _ = ref
  rw [← hq.combine h hl.wf ref ⟨d, hd⟩]
  have hsum : ∀ (mem : Nat → α) (offset : Nat → Nat) (x : Nat → α),
      (∀ s < batch.actNumSegments i, mem (offset s) = x s) →
      ∑ s ∈ range numSegments, load mem (offset s) (decide (s < batch.actNumSegments i)) *
          expBot exp (against (if decide (s < batch.actNumSegments i) = true then
            segm.max (batch.segmPlace t head s) else ⊥) ref) =
        ∑ s ∈ range (batch.actNumSegments i),
          x s * expBot exp (against (batch.segRow exp i t head s).ref ref) := by
    intro mem offset x hx
    rw [← sum_subset hsub]
    · refine sum_congr rfl fun s hs => ?_
      have hlt := mem_range.mp hs
      rw [decide_eq_true hlt, if_pos rfl, ← hsegm s hlt, ← hx s hlt]
      rfl
    · intro s _ hs
      rw [decide_eq_false (mem_range.not.mp hs)]
      exact zero_mul _
  have hguard : ∀ x y : α, (if x = 0 then 0 else y / x) = y / x := by
    intro x y
    split
    · rename_i hx
      rw [hx, div_zero]
    · rfl
  refine (hguard _ _).trans (congrArg₂ (· / ·) ?_ ?_)
  · refine hsum segm.output _ _ fun s hs => ?_
    rw [← hsegm s hs]
    refine congrArg segm.output ?_
    unfold segmPlace
    ring
  · exact hsum segm.expsum (batch.segmPlace t head) _ fun s hs => congrArg Accum.sum (hsegm s hs)

/-- **The combination** leaves the attention, in every order. -/
theorem reduce_run {order : List (Nat × Nat)}
    (horder : order.Perm ((List.range (batch.q.size 0)).product (List.range batch.numQueryHeads))) :
    Programs.run (reduceSegments exp args segm numSegments (out.stride 0) (out.stride 1)) order out.data
      (place out t head d) = batch.attention exp i t head d := by
  have hmem : (t, head) ∈ order := by
    have hlast := Nat.le_trans (starts_le hl.wf hq.seq_lt (Nat.le_refl _)) hl.wf.tokens
    exact horder.symm.subset (List.pair_mem_product.mpr
      ⟨List.mem_range.mpr (Nat.lt_of_lt_of_le hq.lt_stop hlast), List.mem_range.mpr hq.head_lt⟩)
  have hdim : ∀ d', args.dimMask d' = true ↔ d' < batch.q.size 2 := by
    intro d'
    rw [hl.args_eq]
    exact decide_eq_true_iff
  have htile : ∀ {t' head' : Nat}, head' < batch.numQueryHeads → ∀ m < 1, ∀ d' < args.headSizePadded,
      args.dimMask d' = true → place out t' head' d' = place out t head d →
      reduceAcc exp args segm numSegments t' head' d' = batch.attention exp i t head d := by
    intro t' head' hhead _ _ d' _ hmask hplace
    obtain ⟨rfl, rfl, rfl⟩ := place_inj hl.wf hhead hq.head_lt ((hdim _).mp hmask) hd hplace
    exact reduceAcc_eq hq h hl hsegm hd
  have hwrites : Programs.Writes
      (reduceSegments exp args segm numSegments (out.stride 0) (out.stride 1)) order
      (fun mem : Nat → α => mem (place out t head d)) (batch.attention exp i t head d) := by
    rintro ⟨t', head'⟩ hpid mem
    have hhead := List.mem_range.mp (List.pair_mem_product.mp (horder.subset hpid)).2
    exact store_writes (htile hhead) mem
  refine hwrites.foldl_of_mem hmem (fun mem => ?_) out.data
  exact store_written (htile hq.head_lt) Nat.one_pos (lt_padded hl hd) ((hdim d).mpr hd) rfl mem

end Reduce

/-! ## The launch -/

/-- Every program of each grid runs once. -/
structure Schedule.Complete (sched : Schedule) (batch : Batch α) : Prop where
  grid2d : sched.grid2d.Perm
    ((List.range batch.totalNumQBlocks).product (List.range batch.numKvHeads))
  grid3d : sched.grid3d.Perm ((List.range batch.totalNumQBlocks).product
    ((List.range batch.numKvHeads).product (List.range numSegments)))
  gridReduce : sched.gridReduce.Perm
    ((List.range (batch.q.size 0)).product (List.range batch.numQueryHeads))

theorem unifiedAttentionRerope_run (h : ExpLaws exp) (wf : batch.WellFormed out)
    (hk2 : batch.for2d → batch.k2.strides = batch.k.strides) (hnext : ∀ n, n ≤ nextPowerOf2 n)
    {sched : Schedule} (hsched : sched.Complete batch) (empty : Segments α) :
    ∃ out', batch.unifiedAttentionRerope exp nextPowerOf2 sched empty out = some out' ∧
      ∀ {i t head d : Nat}, batch.Query i t head → d < batch.q.size 2 →
        out'.get [t, head, d] = batch.attention exp i t head d := by
  unfold unifiedAttentionRerope
  rw [wf.causal, if_neg (by simp)]
  by_cases h2d : batch.for2d
  · rw [if_pos h2d]
    refine ⟨_, rfl, fun hq hd => ?_⟩
    have hstride : batch.k.stride = batch.k2.stride := by
      funext k
      unfold Tensor.stride
      rw [hk2 h2d]
    rw [get_data wf, hstride]
    exact hq.kernel2d_run h ⟨wf, hnext, rfl⟩ hd hsched.grid2d
  · rw [if_neg h2d]
    refine ⟨_, rfl, fun hq hd => ?_⟩
    have hl : Launch batch out nextPowerOf2 _ := ⟨wf, hnext, rfl⟩
    rw [get_data wf]
    exact reduce_run hq h hl (fun s hs => hq.kernel3d_run hl hsched.grid3d empty hs) hd hsched.gridReduce

/-- **Every query gets its attention**, by either way and in every order of the programs: the softmax
over the keys that it sees, of which there are some. -/
theorem every_query_attends [IsStrictOrderedRing α] (h : ExpLaws exp) (wf : batch.WellFormed out)
    (hk2 : batch.for2d → batch.k2.strides = batch.k.strides) (hnext : ∀ n, n ≤ nextPowerOf2 n)
    {sched : Schedule} (hsched : sched.Complete batch) (empty : Segments α) :
    ∃ out', batch.unifiedAttentionRerope exp nextPowerOf2 sched empty out = some out' ∧
      ∀ i < batch.sequsedK.length, ∀ t, batch.cuSeqlensQ i ≤ t → t < batch.cuSeqlensQ (i + 1) →
        ∀ head < batch.numQueryHeads, ∀ d < batch.q.size 2,
          0 < ∑ n ∈ batch.seen i t, exp (batch.logit exp i t head n) ∧
          out'.get [t, head, d] = batch.attention exp i t head d := by
  obtain ⟨out', hout, hattention⟩ := unifiedAttentionRerope_run h wf hk2 hnext hsched empty
  refine ⟨out', hout, fun i hi t hle hlt head hhead d hd => ?_⟩
  have hq : batch.Query i t head := ⟨hi, hle, hlt, hhead⟩
  exact ⟨hq.sum_seen_pos h wf, hattention hq hd⟩

/-- Two sequences of two and one queries, and of three and two keys. Two heads share the keys. -/
def small : Batch ℝ where
  q := ⟨fun a => a, [3, 2, 1], [2, 1, 1]⟩
  k := ⟨fun a => a, [4, 2, 1, 1], [2, 1, 1, 1]⟩
  q2 := ⟨fun a => 2 * a, [3, 2, 1], [2, 1, 1]⟩
  k2 := ⟨fun a => 3 * a, [4, 2, 1, 1], [2, 1, 1, 1]⟩
  v := ⟨fun a => a, [4, 2, 1, 1], [2, 1, 1, 1]⟩
  cuSeqlensQ := fun i => [0, 2, 3].getD i 0
  maxSeqlenQ := 2
  sequsedK := [3, 2]
  softmaxScale := 1
  causal := true
  reropeWindow := 2
  windowSize := (-1, -1)
  blockTable := ⟨fun a => [2, 0, 3, 0].getD a 0, [2, 2], [2, 1]⟩
  softcap := 0
  alibiSlopes := none

/-- The output of the two sequences. -/
def smallOut : Tensor ℝ := ⟨fun _ => 0, [3, 2, 1], [2, 1, 1]⟩

theorem small_wellFormed : small.WellFormed smallOut := by
  constructor <;> decide

/-- The programs of each grid, by number. -/
def byNumber (batch : Batch α) : Schedule where
  grid2d := (List.range batch.totalNumQBlocks).product (List.range batch.numKvHeads)
  grid3d := (List.range batch.totalNumQBlocks).product
    ((List.range batch.numKvHeads).product (List.range numSegments))
  gridReduce := (List.range (batch.q.size 0)).product (List.range batch.numQueryHeads)

theorem every_query_attends_small :
    ∃ out', small.unifiedAttentionRerope Real.exp id small.byNumber
        ⟨fun _ => 0, fun _ => ⊥, fun _ => 0⟩ smallOut = some out' ∧
      out'.get [1, 1, 0] = small.attention Real.exp 0 1 1 0 := by
  have hsched : small.byNumber.Complete small :=
    ⟨List.Perm.refl _, List.Perm.refl _, List.Perm.refl _⟩
  have hnext : ∀ n : Nat, n ≤ id n := fun n => Nat.le_refl n
  obtain ⟨out', hout, hattention⟩ := every_query_attends ⟨Real.exp_add, Real.exp_pos⟩
    small_wellFormed (fun _ => rfl) hnext hsched ⟨fun _ => 0, fun _ => ⊥, fun _ => 0⟩
  refine ⟨out', hout, ?_⟩
  exact (hattention 0 (by decide) 1 (by decide) (by decide) 1 (by decide) 0 (by decide)).2

end Batch

end UnifiedCache.Sparse.UnifiedAttention
