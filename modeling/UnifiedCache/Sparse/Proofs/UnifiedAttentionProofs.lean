import UnifiedCache.Sparse.UnifiedAttention
import Mathlib.Algebra.BigOperators.Intervals
import Mathlib.Order.Interval.Finset.Nat
import Mathlib.Tactic.Linarith

/-!
# A row of a program

A row of the tiles of a program belongs to one head of one query. What the loop makes of it depends on
the query only, and after some tiles it holds the keys of these tiles. The search finds the sequence of a
block of queries, so every query has a program and a row.
-/

open Finset Lib
open Lib.OnlineSoftmax (expBot against Accum ExpLaws)

namespace UnifiedCache.Sparse.UnifiedAttention

variable {α : Type}

theorem lt_cdivFn_iff {x y s : Nat} (hy : 0 < y) : s < cdivFn x y ↔ s * y < x := by
  unfold cdivFn
  rw [Nat.lt_div_iff_mul_lt hy]
  constructor <;> intro h <;> omega

theorem le_cdivFn_mul {x y : Nat} (hy : 0 < y) : x ≤ cdivFn x y * y := by
  by_contra hlt
  exact Nat.lt_irrefl _ ((lt_cdivFn_iff hy).mpr (Nat.lt_of_not_le hlt))

/-! ## The search -/

section Search

variable {queryStartLen : Nat → Nat} {targetIdx blockQ numSeqs left right : Nat} {mode : Bool}

/-- What `find_seq_idx` compares. -/
def searchKey (queryStartLen : Nat → Nat) (blockQ : Nat) (mode : Bool) (i : Nat) : Nat :=
  if mode then queryStartLen i / blockQ + i else queryStartLen i

/-- The keys are ordered. -/
def Ordered (key : Nat → Nat) (numSeqs : Nat) : Prop := ∀ i j, i ≤ j → j < numSeqs → key i ≤ key j

/-- The keys before `left` are not above the target, the keys from `right` on are. -/
structure Between (key : Nat → Nat) (targetIdx numSeqs left right : Nat) : Prop where
  left_le : left ≤ right
  right_le : right ≤ numSeqs
  below : ∀ i < left, key i ≤ targetIdx
  above : ∀ i, right ≤ i → i < numSeqs → targetIdx < key i

theorem findSeqIdxLoop_eq (left right : Nat) :
    findSeqIdxLoop queryStartLen targetIdx blockQ mode left right =
      if left < right then
        if searchKey queryStartLen blockQ mode ((left + right) / 2) ≤ targetIdx then
          findSeqIdxLoop queryStartLen targetIdx blockQ mode ((left + right) / 2 + 1) right
        else findSeqIdxLoop queryStartLen targetIdx blockQ mode left ((left + right) / 2)
      else left := by
  rw [findSeqIdxLoop]
  rfl

theorem findSeqIdxLoop_between (hmono : Ordered (searchKey queryStartLen blockQ mode) numSeqs)
    (h : Between (searchKey queryStartLen blockQ mode) targetIdx numSeqs left right) :
    Between (searchKey queryStartLen blockQ mode) targetIdx numSeqs
      (findSeqIdxLoop queryStartLen targetIdx blockQ mode left right)
      (findSeqIdxLoop queryStartLen targetIdx blockQ mode left right) := by
  induction hn : right - left using Nat.strong_induction_on generalizing left right with
  | _ n ih =>
    rw [findSeqIdxLoop_eq]
    by_cases hlt : left < right
    · have hmid : left ≤ (left + right) / 2 ∧ (left + right) / 2 < right := by omega
      rw [if_pos hlt]
      split
      · rename_i hle
        refine ih _ ?_ ⟨hmid.2, h.right_le, fun i hi => ?_, h.above⟩ rfl
        · omega
        · exact Nat.le_trans (hmono i _ (Nat.le_of_lt_succ hi) (Nat.lt_of_lt_of_le hmid.2 h.right_le)) hle
      · rename_i hgt
        refine ih _ ?_ ⟨hmid.1, Nat.le_trans hmid.2.le h.right_le, h.below, fun i hi hn => ?_⟩ rfl
        · omega
        · exact Nat.lt_of_lt_of_le (Nat.lt_of_not_le hgt) (hmono _ i hi hn)
    · have heq : left = right := Nat.le_antisymm h.left_le (Nat.le_of_not_lt hlt)
      rw [if_neg hlt]
      exact ⟨Nat.le_refl left, heq ▸ h.right_le, h.below, heq ▸ h.above⟩

/-- **The search** ends behind the last sequence whose key is not above the target. -/
theorem findSeqIdx_between (hmono : Ordered (searchKey queryStartLen blockQ mode) numSeqs)
    (targetIdx : Nat) :
    ∃ r, findSeqIdx queryStartLen targetIdx numSeqs blockQ mode = r - 1 ∧
      Between (searchKey queryStartLen blockQ mode) targetIdx numSeqs r r :=
  ⟨_, rfl, findSeqIdxLoop_between hmono ⟨Nat.zero_le numSeqs, Nat.le_refl numSeqs,
    fun i hi => absurd hi (Nat.not_lt_zero i), fun _ hle hlt => absurd hle (Nat.not_le_of_lt hlt)⟩⟩

theorem findSeqIdx_eq (hmono : Ordered (searchKey queryStartLen blockQ mode) numSeqs) {i : Nat}
    (hi : i < numSeqs) (hle : searchKey queryStartLen blockQ mode i ≤ targetIdx)
    (hnext : i + 1 < numSeqs → targetIdx < searchKey queryStartLen blockQ mode (i + 1)) :
    findSeqIdx queryStartLen targetIdx numSeqs blockQ mode = i := by
  obtain ⟨r, hr, hbetween⟩ := findSeqIdx_between hmono targetIdx
  have hlow : i < r := by
    by_contra hge
    exact absurd hle (Nat.not_le_of_lt (hbetween.above i (Nat.le_of_not_lt hge) hi))
  have hhigh : r ≤ i + 1 := by
    by_contra hgt
    have hlt : i + 1 < r := Nat.lt_of_not_le hgt
    exact absurd (hbetween.below (i + 1) hlt)
      (Nat.not_le_of_lt (hnext (Nat.lt_of_lt_of_le hlt hbetween.right_le)))
  omega

theorem findSeqIdx_lt (hmono : Ordered (searchKey queryStartLen blockQ mode) numSeqs)
    (hpos : 0 < numSeqs) : findSeqIdx queryStartLen targetIdx numSeqs blockQ mode < numSeqs := by
  obtain ⟨r, hr, hbetween⟩ := findSeqIdx_between hmono targetIdx
  have hle := hbetween.right_le
  omega

end Search

/-! ## Tensors -/

namespace Tensor

variable {V : Type} {t : Tensor V}

theorem get_three (h : t.strides.length = 3 ∧ t.stride 2 = 1) (x y d : Nat) :
    t.get [x, y, d] = t.data (x * t.stride 0 + y * t.stride 1 + d) := by
  obtain ⟨hrank, hlast⟩ := h
  obtain ⟨s0, s1, s2, hs⟩ := List.length_eq_three.mp hrank
  simp only [stride, hs, List.getD_cons_zero, List.getD_cons_succ] at hlast
  simp [get, offset, stride, hs, hlast, Strides.offset, Nat.add_assoc]

theorem get_four (hrank : t.strides.length = 4) (x y z d : Nat) :
    t.get [x, y, z, d] =
      t.data (x * t.stride 0 + z * t.stride 2 + d * t.stride 3 + y * t.stride 1) := by
  obtain ⟨s0, s1, s2, s3, hs⟩ := List.length_eq_four.mp hrank
  simp only [get, offset, stride, hs, Strides.offset, List.getD_cons_zero, List.getD_cons_succ]
  congr 1
  omega

theorem get_two (h : t.strides.length = 2 ∧ t.stride 1 = 1) (x y : Nat) :
    t.get [x, y] = t.data (x * t.stride 0 + y) := by
  obtain ⟨hrank, hlast⟩ := h
  obtain ⟨s0, s1, hs⟩ := List.length_eq_two.mp hrank
  simp only [stride, hs, List.getD_cons_zero, List.getD_cons_succ] at hlast
  simp [get, offset, stride, hs, hlast, Strides.offset]

end Tensor

/-- A row of the tiles, without the padding. -/
def Tiles.row (tiles : Tiles α) (headSize m : Nat) : Accum α (Fin headSize) :=
  ⟨tiles.M m, tiles.L m, fun d => tiles.acc m d⟩

namespace Batch

/-! ## Queries -/

/-- What the kernels rely on. -/
structure WellFormed (batch : Batch α) (out : Tensor α) : Prop where
  causal : batch.causal = true
  start_zero : batch.cuSeqlensQ 0 = 0
  start_mono : ∀ i < batch.sequsedK.length, batch.cuSeqlensQ i ≤ batch.cuSeqlensQ (i + 1)
  tokens : batch.cuSeqlensQ batch.sequsedK.length ≤ batch.q.size 0
  keys : ∀ i < batch.sequsedK.length,
    batch.cuSeqlensQ (i + 1) - batch.cuSeqlensQ i ≤ batch.seqLen i
  blockSize_pos : 0 < batch.v.size 1
  heads : batch.numKvHeads ∣ batch.numQueryHeads
  group_pos : 0 < batch.numQueriesPerKv
  group_le : batch.numQueriesPerKv ≤ 16
  q_rank : batch.q.strides.length = 3 ∧ batch.q.stride 2 = 1
  q2_rank : batch.q2.strides.length = 3 ∧ batch.q2.stride 2 = 1
  k_rank : batch.k.strides.length = 4
  k2_rank : batch.k2.strides.length = 4
  v_rank : batch.v.strides.length = 4
  blockTable_rank : batch.blockTable.strides.length = 2 ∧ batch.blockTable.stride 1 = 1
  out_rank : out.strides.length = 3 ∧ out.stride 2 = 1
  out_dims : batch.q.size 2 ≤ out.stride 1
  out_heads : batch.numQueryHeads * out.stride 1 ≤ out.stride 0

/-- A head of a query of a sequence. -/
structure Query (batch : Batch α) (i t head : Nat) : Prop where
  seq_lt : i < batch.sequsedK.length
  start_le : batch.cuSeqlensQ i ≤ t
  lt_stop : t < batch.cuSeqlensQ (i + 1)
  head_lt : head < batch.numQueryHeads

/-- A program has the queries of a sequence, and the row is one of them. -/
structure IsRow (batch : Batch α) (b : QBlock) (m i t head : Nat) : Prop
    extends Query batch i t head where
  seq : b.seqIdx = i
  start : b.curBatchInAllStartIndex = batch.cuSeqlensQ i
  len : b.curBatchQueryLen = batch.cuSeqlensQ (i + 1) - batch.cuSeqlensQ i
  token : t = batch.cuSeqlensQ i + (b.qBlockLocalIdx * batch.blockQ + m / batch.numQueriesPerKv)
  head_eq : head = b.kvHeadIdx * batch.numQueriesPerKv + m % batch.numQueriesPerKv

/-- The arguments of a kernel, for a well-formed batch. -/
structure Launch [Field α] [LinearOrder α] (batch : Batch α) (out : Tensor α) (nextPowerOf2 : Nat → Nat)
    (args : Args α) : Prop where
  wf : batch.WellFormed out
  next : ∀ n, n ≤ nextPowerOf2 n
  args_eq : args = batch.args nextPowerOf2 batch.k2.stride

variable {batch : Batch α} {out : Tensor α} {nextPowerOf2 : Nat → Nat} {args : Args α}
  {b : QBlock} {m i t head : Nat}

theorem Query.position_lt (hq : batch.Query i t head) (wf : batch.WellFormed out) :
    batch.position i t < batch.seqLen i := by
  have hkeys := wf.keys i hq.seq_lt
  have hle := hq.start_le
  have hlt := hq.lt_stop
  unfold position contextLen
  omega

theorem Query.seqLen_pos (hq : batch.Query i t head) (wf : batch.WellFormed out) : 0 < batch.seqLen i :=
  Nat.zero_lt_of_lt (hq.position_lt wf)

theorem starts_le (wf : batch.WellFormed out) {i j : Nat} (hij : i ≤ j)
    (hj : j ≤ batch.sequsedK.length) : batch.cuSeqlensQ i ≤ batch.cuSeqlensQ j := by
  induction j, hij using Nat.le_induction with
  | base => exact Nat.le_refl _
  | succ j hij ih =>
    exact Nat.le_trans (ih (Nat.le_of_succ_le hj)) (wf.start_mono j (Nat.lt_of_succ_le hj))

theorem Query.unique {j head' : Nat} (hq : batch.Query i t head) (hq' : batch.Query j t head')
    (wf : batch.WellFormed out) : i = j := by
  have hi := hq.lt_stop
  have hj := hq'.lt_stop
  have hi' := hq.start_le
  have hj' := hq'.start_le
  rcases Nat.lt_trichotomy i j with hlt | heq | hgt
  · have hle : batch.cuSeqlensQ (i + 1) ≤ batch.cuSeqlensQ j := starts_le wf hlt hq'.seq_lt.le
    omega
  · exact heq
  · have hle : batch.cuSeqlensQ (j + 1) ≤ batch.cuSeqlensQ i := starts_le wf hgt hq.seq_lt.le
    omega

theorem searchKey_ordered (wf : batch.WellFormed out) (mode : Bool) :
    Ordered (searchKey batch.cuSeqlensQ batch.blockQ mode) batch.sequsedK.length := by
  intro i j hij hj
  have hle := starts_le wf hij hj.le
  cases mode
  · exact hle
  · exact Nat.add_le_add (Nat.div_le_div_right hle) hij

namespace IsRow

variable (hrow : batch.IsRow b m i t head)

include hrow

theorem pos_lt : b.qBlockLocalIdx * batch.blockQ + m / batch.numQueriesPerKv < b.curBatchQueryLen := by
  have htoken := hrow.token
  have hlt := hrow.lt_stop
  rw [hrow.len]
  omega

theorem kvHead (wf : batch.WellFormed out) : head / batch.numQueriesPerKv = b.kvHeadIdx := by
  rw [hrow.head_eq, Strides.mul_add_div_of_lt (Nat.mod_lt m wf.group_pos)]

end IsRow

/-- The program of a query. -/
def blockOf (batch : Batch α) (i t : Nat) : Nat :=
  batch.cuSeqlensQ i / batch.blockQ + i + (t - batch.cuSeqlensQ i) / batch.blockQ

/-- The row of a query and a head. -/
def rowOf (batch : Batch α) (i t head : Nat) : Nat :=
  (t - batch.cuSeqlensQ i) % batch.blockQ * batch.numQueriesPerKv + head % batch.numQueriesPerKv

theorem blocks_le {n : Nat} (hle : batch.cuSeqlensQ i ≤ t) (htn : t ≤ n) :
    batch.cuSeqlensQ i / batch.blockQ + (t - batch.cuSeqlensQ i) / batch.blockQ ≤ n / batch.blockQ := by
  refine Nat.le_trans Nat.div_add_div_le_add_div (Nat.div_le_div_right ?_)
  omega

theorem Query.blockOf_lt (hq : batch.Query i t head) (wf : batch.WellFormed out) : batch.blockOf i t < batch.totalNumQBlocks := by
  have hlast : t ≤ batch.q.size 0 :=
    Nat.le_trans hq.lt_stop.le (Nat.le_trans (starts_le wf hq.seq_lt (Nat.le_refl _)) wf.tokens)
  unfold blockOf totalNumQBlocks
  rw [Nat.add_right_comm]
  exact Nat.add_lt_add_of_le_of_lt (blocks_le hq.start_le hlast) hq.seq_lt

theorem Query.kvHead_lt (hq : batch.Query i t head) (wf : batch.WellFormed out) :
    head / batch.numQueriesPerKv < batch.numKvHeads := by
  have hhead := hq.head_lt
  apply Nat.div_lt_of_lt_mul
  unfold numQueriesPerKv
  rwa [Nat.div_mul_cancel wf.heads]

theorem rowOf_lt (wf : batch.WellFormed out) (i t head : Nat) : batch.rowOf i t head < 16 := by
  have hblock : 0 < batch.blockQ := Nat.div_pos wf.group_le wf.group_pos
  have hlt : batch.rowOf i t head < batch.blockQ * batch.numQueriesPerKv :=
    Strides.mul_add_lt (Nat.mod_lt _ hblock) (Nat.mod_lt _ wf.group_pos)
  exact Nat.lt_of_lt_of_le hlt (Nat.div_mul_le_self 16 _)

variable [Field α] [LinearOrder α] {exp : α → α}

/-! ## Scores and values -/

/-- The score of a key. -/
def score (batch : Batch α) (exp : α → α) (i t head n : Nat) : WithBot α :=
  if batch.Visible i t n then batch.logit exp i t head n else ⊥

omit [Field α] [LinearOrder α] in
/-- The value of a key. -/
def value (batch : Batch α) (i head n : Nat) (d : Fin (batch.q.size 2)) : α :=
  batch.v.get (batch.keyIndex i head n d)

/-- The keys of a tile. -/
def tileKeys (batch : Batch α) (j : Nat) : Finset Nat :=
  Ico (j * batch.v.size 1) ((j + 1) * batch.v.size 1)

/-- The reference after a tile. -/
def newRef (batch : Batch α) (exp : α → α) (i t head : Nat) (ref : WithBot α) (j : Nat) : α :=
  (max ref ((range (batch.v.size 1)).sup fun n =>
    batch.score exp i t head (j * batch.v.size 1 + n))).unbotD 0

/-- What a pass makes of a row. -/
def rowPass (batch : Batch α) (exp : α → α) (i t head : Nat) (s : Accum α (Fin (batch.q.size 2)))
    (j : Nat) : Accum α (Fin (batch.q.size 2)) :=
  s.absorb exp (batch.score exp i t head) (batch.value i head) (batch.tileKeys j)
    (batch.newRef exp i t head s.ref j)

/-- What the loop makes of a row. -/
def rowLoop (batch : Batch α) (exp : α → α) (i t head : Nat) (tiles : List Nat) :
    Accum α (Fin (batch.q.size 2)) :=
  tiles.foldl (batch.rowPass exp i t head) ⟨⊥, 1, fun _ => 0⟩

omit [LinearOrder α] in
theorem sum_tileKeys (batch : Batch α) (j : Nat) (f : Nat → α) :
    ∑ n ∈ range (batch.v.size 1), f (j * batch.v.size 1 + n) = ∑ k ∈ batch.tileKeys j, f k := by
  unfold tileKeys
  rw [sum_Ico_eq_sum_range, Nat.succ_mul, Nat.add_sub_cancel_left]

omit [Field α] [LinearOrder α] in
theorem masked_eq (i t key : Nat) (x : WithBot α) :
    (if 1 + batch.windowSize.1 > 0 then
        if (batch.position i t : Int) - key < 1 + batch.windowSize.1 then
          if (key : Int) < batch.position i t + 1 then x else ⊥
        else ⊥
      else if (key : Int) < batch.position i t + 1 then x else ⊥) =
      if batch.Visible i t key then x else ⊥ := by
  unfold Visible
  split_ifs <;> grind

section Row

variable (hl : Launch batch out nextPowerOf2 args)

include hl

theorem mask_eq_true {d : Nat} :
    args.mask b m d = true ↔
      d < batch.q.size 2 ∧ args.queryMask0 b m = true ∧ args.queryMask1 b m = true := by
  obtain ⟨-, -, rfl⟩ := hl
  unfold Args.mask
  rw [Bool.and_eq_true, Bool.and_eq_true, and_assoc]
  exact and_congr_left fun _ => decide_eq_true_iff

variable (hrow : batch.IsRow b m i t head)

namespace IsRow

include hrow

theorem queryPos : args.queryPos b m = t - batch.cuSeqlensQ i := by
  obtain ⟨-, -, rfl⟩ := hl
  show b.qBlockLocalIdx * batch.blockQ + m / batch.numQueriesPerKv = _
  rw [hrow.token, Nat.add_sub_cancel_left]

theorem queryOffset0 : args.queryOffset0 b m = t := by
  unfold Args.queryOffset0
  rw [queryPos hl hrow, hrow.start, Nat.add_sub_cancel' hrow.start_le]

theorem queryOffset1 : args.queryOffset1 b m = head := by
  obtain ⟨-, -, rfl⟩ := hl
  exact hrow.head_eq.symm

theorem queryMask0 : args.queryMask0 b m = true := by
  obtain ⟨-, -, rfl⟩ := hl
  exact decide_eq_true hrow.pos_lt

theorem queryMask1 : args.queryMask1 b m = true := by
  unfold Args.queryMask1
  rw [queryOffset1 hl hrow]
  obtain ⟨-, -, rfl⟩ := hl
  exact decide_eq_true hrow.head_lt

theorem contextLen : args.contextLen b = batch.contextLen i := by
  obtain ⟨wf, -, rfl⟩ := hl
  have hkeys := wf.keys i hrow.seq_lt
  show ((batch.seqLen b.seqIdx : Nat) : Int) - (b.curBatchQueryLen : Nat) = _
  rw [hrow.seq, hrow.len]
  unfold Batch.contextLen
  omega

theorem tileQ {q : Tensor α} (hq : q.strides.length = 3 ∧ q.stride 2 = 1) (d : Nat) :
    args.tileQ b q.data (q.stride 0) (q.stride 1) m d =
      if d < batch.q.size 2 then q.get [t, head, d] else 0 := by
  have hmask : args.mask b m d = true ↔ d < batch.q.size 2 := by
    rw [mask_eq_true hl, queryMask0 hl hrow, queryMask1 hl hrow]
    simp
  unfold Args.tileQ load
  rw [queryOffset0 hl hrow, queryOffset1 hl hrow, Tensor.get_three hq]
  simp only [hmask]

theorem tileK {k : Tensor α} (hk : k.strides.length = 4) {j d n : Nat} (hd : d < batch.q.size 2)
    (hn : n < batch.v.size 1) :
    args.tileK b k.data k.stride j d n = k.get (batch.keyIndex i head (j * batch.v.size 1 + n) d) := by
  obtain ⟨wf, -, rfl⟩ := hl
  have hmod : (j * batch.v.size 1 + n) % batch.v.size 1 = n := by
    rw [Nat.mul_add_mod', Nat.mod_eq_of_lt hn]
  unfold Args.tileK load keyIndex Args.physicalBlockIdx
  rw [Tensor.get_four hk, Tensor.get_two wf.blockTable_rank, Strides.mul_add_div_of_lt hn, hmod,
    hrow.kvHead wf, hrow.seq]
  exact if_pos (decide_eq_true hd)

theorem dots {q k : Tensor α} (hq : q.strides.length = 3 ∧ q.stride 2 = 1) (hk : k.strides.length = 4)
    {j n : Nat} (hn : n < batch.v.size 1) :
    args.dots exp (args.tileQ b q.data (q.stride 0) (q.stride 1)) (args.tileK b k.data k.stride j) m n =
      batch.capped exp (batch.product q k i t head (j * batch.v.size 1 + n)) := by
  have hsum : ∑ d ∈ range args.headSizePadded,
      args.tileQ b q.data (q.stride 0) (q.stride 1) m d * args.tileK b k.data k.stride j d n =
      batch.product q k i t head (j * batch.v.size 1 + n) := by
    have hsub : range (batch.q.size 2) ⊆ range args.headSizePadded := by
      obtain ⟨-, hnext, rfl⟩ := hl
      exact range_subset_range.mpr (hnext _)
    refine Eq.trans (sum_subset hsub ?_).symm (sum_congr rfl fun d hd => ?_)
    · intro d _ hd
      rw [tileQ hl hrow hq, if_neg (mem_range.not.mp hd), zero_mul]
    · rw [tileQ hl hrow hq, if_pos (mem_range.mp hd), tileK hl hrow hk (mem_range.mp hd) hn]
  have hcap : args.useSoftcap = decide (0 < batch.softcap) := by rw [hl.args_eq]; rfl
  unfold Args.dots Batch.capped
  simp only [hsum, hcap, decide_eq_true_eq]
  rw [hl.args_eq]
  rfl

/-- **The scores of the row.** -/
theorem scores {j n : Nat} (hn : n < batch.v.size 1) :
    args.scores b exp j m n = batch.score exp i t head (j * batch.v.size 1 + n) := by
  obtain ⟨wf, -, rfl⟩ := id hl
  let args := batch.args nextPowerOf2 batch.k2.stride
  have hS1 : args.dots exp (args.tileQ b args.query args.queryStride0 args.queryStride1)
      (args.tileK b args.keyCache args.strideKCache j) m n = _ := dots hl hrow wf.q_rank wf.k_rank hn
  have hS2 : args.dots exp (args.tileQ b args.query2 args.query2Stride0 args.query2Stride1)
      (args.tileK b args.keyCache2 args.strideKCache2 j) m n = _ := dots hl hrow wf.q2_rank wf.k2_rank hn
  have hpos : (batch.contextLen i : Int) + (t - batch.cuSeqlensQ i : Nat) = batch.position i t :=
    (Int.natCast_add _ _).symm
  have hlen : t - batch.cuSeqlensQ i < b.curBatchQueryLen := by
    rw [hrow.token, Nat.add_sub_cancel_left]
    exact hrow.pos_lt
  have hoff : args.seqOffset j n = j * batch.v.size 1 + n := rfl
  have hrerope : args.reropeWindow = batch.reropeWindow := rfl
  have hslide : args.slidingWindow = 1 + batch.windowSize.1 := rfl
  have huse : args.useAlibiSlopes = batch.alibiSlopes.isSome := rfl
  have halibi : load args.alibiSlopes head true = (batch.alibiSlopes.getD fun _ => 0) head := rfl
  unfold Args.scores
  simp only [queryPos hl hrow, contextLen hl hrow, queryMask0 hl hrow, queryMask1 hl hrow,
    queryOffset1 hl hrow, hpos, hlen, args, hoff, hS1, hS2, hrerope, hslide, huse, halibi, and_true,
    true_and, Bool.and_self, masked_eq]
  generalize j * batch.v.size 1 + n = key
  unfold score
  by_cases hvisible : batch.Visible i t key
  · have hnear : |(batch.position i t : Int) + 1 - key| = batch.position i t + 1 - key :=
      abs_of_nonneg (by have := hvisible.1; omega)
    simp only [if_pos hvisible, hnear, logit, biased, decide_eq_true_eq]
    cases batch.alibiSlopes with
    | none =>
      simp only [Option.isSome_none, Bool.false_eq_true, if_false]
      split <;> rfl
    | some slopes =>
      simp only [Option.isSome_some, if_true]
      split <;> rfl
  · simp only [if_neg hvisible, WithBot.map_bot, ite_self]

/-- **A pass over a tile** depends on the query of the row, not on the program. -/
theorem pass (tiles : Tiles α) (j : Nat) :
    (args.pass b exp tiles j).row (batch.q.size 2) m =
      batch.rowPass exp i t head (tiles.row (batch.q.size 2) m) j := by
  have hblock : args.blockSize = batch.v.size 1 := by rw [hl.args_eq]; rfl
  have hscore : ∀ n ∈ range (batch.v.size 1),
      args.scores b exp j m n = batch.score exp i t head (j * batch.v.size 1 + n) :=
    fun n hn => scores hl hrow (mem_range.mp hn)
  have hvalue : ∀ n ∈ range (batch.v.size 1), ∀ d : Fin (batch.q.size 2),
      args.tileK b args.valueCache args.strideVCache j d n =
        batch.value i head (j * batch.v.size 1 + n) d := by
    intro n hn d
    have hv := tileK hl hrow hl.wf.v_rank (j := j) d.isLt (mem_range.mp hn)
    rw [hl.args_eq] at hv ⊢
    exact hv
  unfold Args.pass Tiles.row rowPass Accum.absorb newRef
  simp only [hblock, ← sum_tileKeys]
  rw [sup_congr rfl hscore]
  congr 1
  · congr 1
    exact sum_congr rfl fun n hn => by rw [hscore n hn]
  · funext d
    congr 1
    exact sum_congr rfl fun n hn => by rw [hscore n hn, hvalue n hn d]

/-- **The loop over some tiles**, for the row. -/
theorem loop (tiles : List Nat) :
    (args.loop b exp tiles).row (batch.q.size 2) m = batch.rowLoop exp i t head tiles := by
  have hstart : (Args.start : Tiles α).row (batch.q.size 2) m = ⟨⊥, 1, fun _ => 0⟩ := rfl
  unfold Args.loop rowLoop
  rw [← hstart]
  generalize (Args.start : Tiles α) = s
  induction tiles generalizing s with
  | nil => rfl
  | cons j tiles ih => rw [List.foldl_cons, List.foldl_cons, ih, pass hl hrow]

end IsRow

end Row

/-! ## Rows over all tiles -/

omit [Field α] [LinearOrder α] in
/-- The keys of some tiles. -/
def keysOf (batch : Batch α) (first last : Nat) : Finset Nat :=
  Ico (first * batch.v.size 1) (last * batch.v.size 1)

/-- **The loop holds the keys of its tiles.** -/
theorem rowLoop_holds (h : ExpLaws exp) (batch : Batch α) (i t head : Nat) {first last : Nat}
    (hlt : first < last) :
    ∃ ref, (batch.rowLoop exp i t head (List.range' first (last - first))).Holds exp
      (batch.score exp i t head) (batch.value i head) (batch.keysOf first last) ref := by
  induction last, hlt using Nat.le_induction with
  | base =>
    rw [Nat.sub_eq_of_eq_add (Nat.succ_eq_one_add first)]
    exact ⟨_, Accum.holds_first h rfl _ _⟩
  | succ last hlast ih =>
    obtain ⟨ref, hholds⟩ := ih
    have hle : first ≤ last := Nat.le_of_succ_le hlast
    have hunion : batch.keysOf first (last + 1) = batch.keysOf first last ∪ batch.tileKeys last :=
      (Ico_union_Ico_eq_Ico (Nat.mul_le_mul_right _ hle) (Nat.mul_le_mul_right _ last.le_succ)).symm
    have hloop : batch.rowLoop exp i t head (List.range' first (last + 1 - first)) =
        batch.rowPass exp i t head (batch.rowLoop exp i t head (List.range' first (last - first))) last := by
      rw [Nat.succ_sub hle, List.range'_1_concat, Nat.add_sub_cancel' hle]
      exact List.foldl_concat ..
    rw [hloop, hunion]
    exact ⟨_, hholds.absorb h (Ico_disjoint_Ico_consecutive _ _ _) _⟩

theorem Query.sum_seen_pos [IsStrictOrderedRing α] (hq : batch.Query i t head) (h : ExpLaws exp)
    (wf : batch.WellFormed out) : 0 < ∑ n ∈ batch.seen i t, exp (batch.logit exp i t head n) := by
  have hself : batch.Visible i t (batch.position i t) :=
    ⟨Nat.le_refl _, fun hwindow => by rw [Int.sub_self]; exact hwindow⟩
  apply sum_pos
  · intro n _
    exact h.pos _
  · exact ⟨batch.position i t, mem_filter.mpr ⟨mem_range.mpr (hq.position_lt wf), hself⟩⟩

/-- The number of tiles of a sequence. -/
def numTiles (batch : Batch α) (i : Nat) : Nat := cdivFn (batch.seqLen i) (batch.v.size 1)

/-- **The softmax over all tiles** is the attention. -/
theorem Query.softmax_eq (hq : batch.Query i t head) (wf : batch.WellFormed out)
    (d : Fin (batch.q.size 2)) :
    OnlineSoftmax.softmax exp (batch.score exp i t head) (batch.value i head)
        (batch.keysOf 0 (batch.numTiles i)) d =
      batch.attention exp i t head d := by
  have hseen : (batch.keysOf 0 (batch.numTiles i)).filter (batch.Visible i t) = batch.seen i t := by
    ext n
    have hposition := hq.position_lt wf
    have hcover : batch.seqLen i ≤ batch.numTiles i * batch.v.size 1 := le_cdivFn_mul wf.blockSize_pos
    unfold keysOf seen
    rw [mem_filter, mem_filter, mem_Ico, mem_range, Nat.zero_mul]
    constructor
    · rintro ⟨-, hvisible⟩
      exact ⟨Nat.lt_of_le_of_lt hvisible.1 hposition, hvisible⟩
    · rintro ⟨hn, hvisible⟩
      exact ⟨⟨Nat.zero_le n, Nat.lt_of_lt_of_le hn hcover⟩, hvisible⟩
  have hscore : ∀ k ∈ batch.keysOf 0 (batch.numTiles i), batch.score exp i t head k =
      if batch.Visible i t k then (batch.logit exp i t head k : WithBot α) else ⊥ := fun _ _ => rfl
  rw [OnlineSoftmax.softmax_filter hscore, hseen]
  rfl

/-! ## The blocks of queries -/

section Blocks

theorem isRow_of_mask (hl : Launch batch out nextPowerOf2 args) (hpos : 0 < batch.sequsedK.length)
    {g kvHead : Nat} (hb : b = args.qBlock g kvHead) (h0 : args.queryMask0 b m = true)
    (h1 : args.queryMask1 b m = true) :
    batch.IsRow b m b.seqIdx (args.queryOffset0 b m) (args.queryOffset1 b m) := by
  obtain ⟨wf, -, rfl⟩ := hl
  subst hb
  have hlt := of_decide_eq_true h0
  have hseq : findSeqIdx batch.cuSeqlensQ g batch.sequsedK.length batch.blockQ true <
      batch.sequsedK.length := findSeqIdx_lt (searchKey_ordered wf true) hpos
  exact ⟨⟨hseq, Nat.le_add_right _ _, Nat.add_lt_of_lt_sub' hlt, of_decide_eq_true h1⟩, rfl, rfl, rfl, rfl, rfl⟩

theorem Query.isRow (hq : batch.Query i t head) (hl : Launch batch out nextPowerOf2 args) {g kvHead : Nat}
    (hb : b = args.qBlock g kvHead) (h0 : args.queryMask0 b m = true) (h1 : args.queryMask1 b m = true)
    (ht : args.queryOffset0 b m = t) (hhead : args.queryOffset1 b m = head) :
    batch.IsRow b m i t head := by
  have hrow := isRow_of_mask hl (Nat.zero_lt_of_lt hq.seq_lt) hb h0 h1
  rw [ht, hhead] at hrow
  rwa [hq.unique hrow.toQuery hl.wf]

namespace Query

variable (hq : batch.Query i t head)

include hq

theorem qBlock_blockOf (hl : Launch batch out nextPowerOf2 args) (kvHead : Nat) :
    args.qBlock (batch.blockOf i t) kvHead =
      ⟨i, (t - batch.cuSeqlensQ i) / batch.blockQ, batch.cuSeqlensQ i,
        batch.cuSeqlensQ (i + 1) - batch.cuSeqlensQ i, kvHead⟩ := by
  obtain ⟨wf, -, rfl⟩ := hl
  have hseq : findSeqIdx batch.cuSeqlensQ (batch.blockOf i t) batch.sequsedK.length batch.blockQ true = i := by
    apply findSeqIdx_eq (searchKey_ordered wf true) hq.seq_lt
    · exact Nat.le_add_right _ _
    · intro _
      show batch.cuSeqlensQ i / batch.blockQ + i + (t - batch.cuSeqlensQ i) / batch.blockQ <
        batch.cuSeqlensQ (i + 1) / batch.blockQ + (i + 1)
      rw [Nat.add_right_comm]
      exact Nat.add_lt_add_of_le_of_lt (blocks_le hq.start_le hq.lt_stop.le) (Nat.lt_succ_self i)
  have hlocal : batch.blockOf i t - (batch.cuSeqlensQ i / batch.blockQ + i) =
      (t - batch.cuSeqlensQ i) / batch.blockQ := Nat.add_sub_cancel_left _ _
  unfold Args.qBlock
  simp only [Batch.args, hseq, hlocal]

/-- **Every query has a program and a row.** -/
theorem isRow_blockOf (hl : Launch batch out nextPowerOf2 args) :
    batch.IsRow (args.qBlock (batch.blockOf i t) (head / batch.numQueriesPerKv)) (batch.rowOf i t head)
      i t head := by
  rw [hq.qBlock_blockOf hl]
  have hmod := Nat.mod_lt head hl.wf.group_pos
  refine ⟨hq, rfl, rfl, rfl, ?_, ?_⟩
  · show t = batch.cuSeqlensQ i + ((t - batch.cuSeqlensQ i) / batch.blockQ * batch.blockQ +
      batch.rowOf i t head / batch.numQueriesPerKv)
    rw [rowOf, Strides.mul_add_div_of_lt hmod, Nat.div_add_mod', Nat.add_sub_cancel' hq.start_le]
  · show head = head / batch.numQueriesPerKv * batch.numQueriesPerKv +
      batch.rowOf i t head % batch.numQueriesPerKv
    rw [rowOf, Nat.mul_add_mod', Nat.mod_mod, Nat.div_add_mod']

end Query

theorem IsRow.runs (hrow : batch.IsRow b m i t head) (hl : Launch batch out nextPowerOf2 args) :
    ¬ b.qBlockLocalIdx * args.blockQ ≥ b.curBatchQueryLen := by
  obtain ⟨-, -, rfl⟩ := hl
  exact Nat.not_le_of_lt (Nat.lt_of_le_of_lt (Nat.le_add_right _ _) hrow.pos_lt)

end Blocks

end Batch

end UnifiedCache.Sparse.UnifiedAttention
