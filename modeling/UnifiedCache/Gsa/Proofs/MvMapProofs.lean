import UnifiedCache.Gsa.MvMap

/-!
# Proofs: moving the blocks that are kept

The chosen indices that stay and the free ones make up the indices that stay, and there are as many free
ones as chosen ones that do not stay. So a move goes from a block that does not stay to one that is free,
no block is in both roles, and the order of the copies does not matter.
-/

open Lib

namespace UnifiedCache.Gsa.MvMap

variable {blocks remainIdxs topkValues free : List Nat} {remainLen : Int}

/-! ## The indices -/

/-- The block of an index in range. -/
def blockOf (blocks : List Nat) (idx : Nat) : Nat := blocks.getD idx 0

theorem getElem?_blockOf {idx : Nat} (h : idx < blocks.length) :
    blocks[idx]? = some (blockOf blocks idx) := by
  unfold blockOf
  rw [List.getD_eq_getElem?_getD, List.getElem?_eq_getElem h, Option.getD_some]

theorem blockOf_inj (hblocks : blocks.Nodup) {i j : Nat} (hi : i < blocks.length)
    (hj : j < blocks.length) (h : blockOf blocks i = blockOf blocks j) : i = j := by
  have hsome : blocks[i]? = blocks[j]? := by rw [getElem?_blockOf hi, getElem?_blockOf hj, h]
  rw [List.getElem?_eq_getElem hi, List.getElem?_eq_getElem hj] at hsome
  exact (hblocks.getElem_inj_iff).mp (Option.some.inj hsome)

/-- The chosen indices that stay. -/
def hitIdxs (remainIdxs topkValues : List Nat) : List Nat :=
  topkValues.filter fun idx => idx ∈ remainIdxs

/-- The chosen indices that do not stay: `miss_block`. -/
def missIdxs (remainIdxs topkValues : List Nat) : List Nat :=
  topkValues.filter fun idx => idx ∉ remainIdxs

theorem mem_freeBlock {idx : Nat} :
    idx ∈ freeBlock remainIdxs topkValues ↔ idx ∈ remainIdxs ∧ idx ∉ topkValues := by
  unfold freeBlock
  rw [List.mem_filter, decide_eq_true_eq, List.mem_filter, decide_eq_true_eq]
  constructor
  · rintro ⟨hr, hnot⟩
    exact ⟨hr, fun ht => hnot ⟨ht, hr⟩⟩
  · rintro ⟨hr, hnot⟩
    exact ⟨hr, fun hmem => hnot hmem.1⟩

theorem hitIdxs_append_freeBlock (hremain : remainIdxs.Nodup) (htopk : topkValues.Nodup) :
    (hitIdxs remainIdxs topkValues ++ freeBlock remainIdxs topkValues).Perm remainIdxs := by
  have hnodup : (hitIdxs remainIdxs topkValues ++ freeBlock remainIdxs topkValues).Nodup := by
    refine List.nodup_append.mpr ⟨htopk.filter _, hremain.filter _, ?_⟩
    rintro a ha b hb rfl
    exact (mem_freeBlock.mp hb).2 (List.mem_of_mem_filter ha)
  refine (List.perm_ext_iff_of_nodup hnodup hremain).mpr fun idx => ?_
  unfold hitIdxs
  rw [List.mem_append, List.mem_filter, decide_eq_true_eq, mem_freeBlock]
  constructor
  · rintro (⟨_, hr⟩ | ⟨hr, _⟩)
    · exact hr
    · exact hr
  · intro hr
    by_cases ht : idx ∈ topkValues
    · exact Or.inl ⟨ht, hr⟩
    · exact Or.inr ⟨hr, ht⟩

theorem length_freeBlock (hremain : remainIdxs.Nodup) (htopk : topkValues.Nodup)
    (hlength : topkValues.length = remainIdxs.length) :
    (freeBlock remainIdxs topkValues).length = (missIdxs remainIdxs topkValues).length := by
  have hstay := (hitIdxs_append_freeBlock hremain htopk).length_eq
  have hsplit := List.length_eq_length_filter_add (l := topkValues)
    (fun idx => decide (idx ∈ remainIdxs))
  have hmiss : (topkValues.filter fun idx => !decide (idx ∈ remainIdxs)) =
      missIdxs remainIdxs topkValues := by
    unfold missIdxs
    refine List.filter_congr fun idx _ => ?_
    rw [decide_not]
  rw [hmiss] at hsplit
  rw [List.length_append] at hstay
  unfold hitIdxs at hstay
  omega

/-! ## The loops -/

/-- What the first loop leaves for an index. -/
def row (blocks remainIdxs : List Nat) (idx : Nat) : Option Nat :=
  if idx ∈ remainIdxs then some (blockOf blocks idx) else none

theorem newBlock_eq (hrange : ∀ idx ∈ topkValues, idx < blocks.length) :
    newBlock blocks remainIdxs topkValues = some (topkValues.map (row blocks remainIdxs)) := by
  unfold newBlock
  induction topkValues with
  | nil => rfl
  | cons idx topkValues ih =>
    rw [List.forall_mem_cons] at hrange
    have hhead : (if idx ∈ remainIdxs then blocks[idx]?.map some else some none) =
        some (row blocks remainIdxs idx) := by
      unfold row
      by_cases hidx : idx ∈ remainIdxs
      · rw [if_pos hidx, if_pos hidx, getElem?_blockOf hrange.1, Option.map_some]
      · rw [if_neg hidx, if_neg hidx]
    rw [List.mapM_cons, hhead, ih hrange.2]
    rfl

/-- The moves, from index to index. -/
def moved (remainIdxs topkValues free : List Nat) : List (Nat × Nat) :=
  (missIdxs remainIdxs topkValues).zip free

theorem fillBlocks_eq (mvMap : List (Nat × Nat)) (htopk : ∀ idx ∈ topkValues, idx < blocks.length)
    (hfree : ∀ idx ∈ free, idx < blocks.length)
    (hlength : (missIdxs remainIdxs topkValues).length ≤ free.length) :
    ∃ new, fillBlocks blocks (topkValues.zip (topkValues.map (row blocks remainIdxs))) free mvMap =
        some (new, ((moved remainIdxs topkValues free).map
          (Prod.map (blockOf blocks) (blockOf blocks))).foldl (fun d p => Dict.set d p.1 p.2) mvMap) ∧
      new.length = topkValues.length ∧
      (topkValues.zip new).Perm
        ((hitIdxs remainIdxs topkValues).map (fun idx => (idx, blockOf blocks idx)) ++
          (moved remainIdxs topkValues free).map (Prod.map id (blockOf blocks))) := by
  induction topkValues generalizing free mvMap with
  | nil => exact ⟨[], rfl, rfl, List.Perm.refl _⟩
  | cons idx topkValues ih =>
    rw [List.forall_mem_cons] at htopk
    rw [List.map_cons, List.zip_cons_cons]
    by_cases hidx : idx ∈ remainIdxs
    · have hmiss : missIdxs remainIdxs (idx :: topkValues) = missIdxs remainIdxs topkValues :=
        List.filter_cons_of_neg (by rw [decide_eq_true_eq, not_not]; exact hidx)
      have hhit : hitIdxs remainIdxs (idx :: topkValues) = idx :: hitIdxs remainIdxs topkValues :=
        List.filter_cons_of_pos (decide_eq_true hidx)
      have hrow : row blocks remainIdxs idx = some (blockOf blocks idx) := if_pos hidx
      rw [hmiss] at hlength
      obtain ⟨new, hnew, hnewLength, hperm⟩ := ih mvMap htopk.2 hfree hlength
      refine ⟨blockOf blocks idx :: new, ?_, congrArg (· + 1) hnewLength, ?_⟩
      · unfold moved
        rw [hrow, fillBlocks, hnew, hmiss]
        rfl
      · unfold moved
        rw [hhit, hmiss, List.zip_cons_cons, List.map_cons, List.cons_append]
        exact hperm.cons _
    · have hmiss : missIdxs remainIdxs (idx :: topkValues) = idx :: missIdxs remainIdxs topkValues :=
        List.filter_cons_of_pos (decide_eq_true hidx)
      have hhit : hitIdxs remainIdxs (idx :: topkValues) = hitIdxs remainIdxs topkValues :=
        List.filter_cons_of_neg (by rw [decide_eq_true_eq]; exact hidx)
      have hrow : row blocks remainIdxs idx = none := if_neg hidx
      rw [hmiss, List.length_cons] at hlength
      cases free with
      | nil => exact absurd hlength (Nat.not_succ_le_zero _)
      | cons oneFreeIdx free =>
        rw [List.forall_mem_cons] at hfree
        obtain ⟨new, hnew, hnewLength, hperm⟩ := ih
          (Dict.set mvMap (blockOf blocks idx) (blockOf blocks oneFreeIdx)) htopk.2 hfree.2
          (Nat.le_of_succ_le_succ hlength)
        refine ⟨blockOf blocks oneFreeIdx :: new, ?_, congrArg (· + 1) hnewLength, ?_⟩
        · unfold moved
          rw [hrow, fillBlocks, getElem?_blockOf hfree.1, getElem?_blockOf htopk.1, Option.bind_eq_bind,
            Option.bind_some, Option.bind_eq_bind, Option.bind_some, hnew, hmiss]
          rfl
        · unfold moved
          rw [hhit, hmiss, List.zip_cons_cons, List.zip_cons_cons, List.map_cons]
          exact (hperm.cons _).trans List.perm_middle.symm

theorem splitMaps_eq {pairs remainMap prefetchMap : List (Nat × Nat)} {i : Nat} :
    splitMaps remainLen i pairs remainMap prefetchMap =
      ((pairs.take (remainLen.toNat - i)).foldl (fun d p => Dict.set d p.1 p.2) remainMap,
        (pairs.drop (remainLen.toNat - i)).foldl (fun d p => Dict.set d p.1 p.2) prefetchMap) := by
  induction pairs generalizing i remainMap prefetchMap with
  | nil =>
    rw [List.take_nil, List.drop_nil]
    rfl
  | cons p pairs ih =>
    obtain ⟨idx, block⟩ := p
    unfold splitMaps
    by_cases hi : (i : Int) < remainLen
    · have hsucc : remainLen.toNat - i = (remainLen.toNat - (i + 1)) + 1 := by omega
      rw [if_pos hi, ih, hsucc, List.take_succ_cons, List.drop_succ_cons, List.foldl_cons]
    · have hzero : remainLen.toNat - i = 0 := by omega
      have hzero' : remainLen.toNat - (i + 1) = 0 := by omega
      rw [if_neg hi, ih, hzero, hzero', List.take_zero, List.drop_zero, List.take_zero, List.drop_zero,
        List.foldl_cons]

/-! ## The plan -/

/-- The plan of `get_mv_map`, with each chosen index assigned a block. -/
structure MovePlanOk (blocks remainIdxs topkValues : List Nat) (plan : Plan) : Prop where
  /-- The maps have the chosen indices. -/
  keys : (plan.remainMap ++ plan.prefetchMap).map Prod.fst = topkValues
  /-- Their values are the blocks at the indices that stay. -/
  values : ((plan.remainMap ++ plan.prefetchMap).map fun a => some a.2).Perm
    (remainIdxs.map fun idx => blocks[idx]?)
  oneToOne : ((plan.remainMap ++ plan.prefetchMap).map Prod.snd).Nodup
  /-- No destination is a source. -/
  dest_source : ∀ m ∈ plan.mvMap, m.2 ∉ plan.mvMap.map Prod.fst
  /-- No destination is the block of an index that is not moved. -/
  dest_kept : ∀ a ∈ plan.remainMap ++ plan.prefetchMap, ∀ source, blocks[a.1]? = some source →
    source ∉ plan.mvMap.map Prod.fst → a.2 ∉ plan.mvMap.map Prod.snd
  /-- The copies, in any order, leave what the block of the index had. -/
  copies : ∀ (β : Type) (layerCache : Nat → β) (order : List (Nat × Nat)), order.Perm plan.mvMap →
    ∀ a ∈ plan.remainMap ++ plan.prefetchMap, ∀ source, blocks[a.1]? = some source →
      Moves.copyAll layerCache order a.2 = layerCache source

section Plan

variable (hblocks : blocks.Nodup) (hremain : remainIdxs.Nodup) (htopk : topkValues.Nodup)
  (hremainRange : ∀ idx ∈ remainIdxs, idx < blocks.length)
  (htopkRange : ∀ idx ∈ topkValues, idx < blocks.length)
  (hlength : topkValues.length = remainIdxs.length)

include hblocks in
theorem nodup_map_blockOf {idxs : List Nat} (h : idxs.Nodup)
    (hrange : ∀ idx ∈ idxs, idx < blocks.length) : (idxs.map (blockOf blocks)).Nodup := by
  refine List.Nodup.map_on ?_ h
  intro i hi j hj heq
  exact blockOf_inj hblocks (hrange i hi) (hrange j hj) heq

include hblocks in
theorem mem_map_blockOf {idxs : List Nat} {idx : Nat} (hidx : idx < blocks.length)
    (hrange : ∀ i ∈ idxs, i < blocks.length) (h : blockOf blocks idx ∈ idxs.map (blockOf blocks)) :
    idx ∈ idxs := by
  obtain ⟨i, hi, heq⟩ := List.mem_map.mp h
  rw [← blockOf_inj hblocks (hrange i hi) hidx heq]
  exact hi

/-- The moves between blocks. -/
def movedBlocks (blocks remainIdxs topkValues : List Nat) : List (Nat × Nat) :=
  (moved remainIdxs topkValues (freeBlock remainIdxs topkValues)).map
    (Prod.map (blockOf blocks) (blockOf blocks))

include hremain htopk hlength in
theorem map_fst_moved :
    (moved remainIdxs topkValues (freeBlock remainIdxs topkValues)).map Prod.fst =
      missIdxs remainIdxs topkValues :=
  List.map_fst_zip (Nat.le_of_eq (length_freeBlock hremain htopk hlength).symm)

include hremain htopk hlength in
theorem map_snd_moved :
    (moved remainIdxs topkValues (freeBlock remainIdxs topkValues)).map Prod.snd =
      freeBlock remainIdxs topkValues :=
  List.map_snd_zip (Nat.le_of_eq (length_freeBlock hremain htopk hlength))

include hremain htopk hlength in
theorem map_fst_movedBlocks : (movedBlocks blocks remainIdxs topkValues).map Prod.fst =
    (missIdxs remainIdxs topkValues).map (blockOf blocks) := by
  unfold movedBlocks
  rw [← map_fst_moved hremain htopk hlength, List.map_map, List.map_map]
  rfl

include hremain htopk hlength in
theorem map_snd_movedBlocks : (movedBlocks blocks remainIdxs topkValues).map Prod.snd =
    (freeBlock remainIdxs topkValues).map (blockOf blocks) := by
  have hsnd := congrArg (List.map (blockOf blocks)) (map_snd_moved hremain htopk hlength)
  unfold movedBlocks
  rw [← hsnd, List.map_map, List.map_map]
  rfl

/-- What the chosen indices are assigned. -/
structure Assigned (blocks remainIdxs topkValues : List Nat) (assigned : List (Nat × Nat)) : Prop where
  keys : assigned.map Prod.fst = topkValues
  perm : assigned.Perm
    ((hitIdxs remainIdxs topkValues).map (fun idx => (idx, blockOf blocks idx)) ++
      (moved remainIdxs topkValues (freeBlock remainIdxs topkValues)).map
        (Prod.map id (blockOf blocks)))

include hblocks hremain htopk hremainRange htopkRange hlength in
theorem getMvMap_eq (remainLen : Int) : ∃ plan, getMvMap blocks remainIdxs topkValues remainLen = some plan ∧
    plan.mvMap = movedBlocks blocks remainIdxs topkValues ∧
    Assigned blocks remainIdxs topkValues (plan.remainMap ++ plan.prefetchMap) := by
  have hfreeRange : ∀ idx ∈ freeBlock remainIdxs topkValues, idx < blocks.length :=
    fun idx hidx => hremainRange idx (mem_freeBlock.mp hidx).1
  obtain ⟨new, hfill, hnewLength, hperm⟩ := fillBlocks_eq [] htopkRange hfreeRange
    (Nat.le_of_eq (length_freeBlock hremain htopk hlength).symm)
  have hsources : (([] ++ movedBlocks blocks remainIdxs topkValues).map Prod.fst).Nodup := by
    rw [List.nil_append, map_fst_movedBlocks hremain htopk hlength]
    exact nodup_map_blockOf hblocks (htopk.filter _)
      fun idx hidx => htopkRange idx (List.mem_of_mem_filter hidx)
  have hkeys : (topkValues.zip new).map Prod.fst = topkValues := List.map_fst_zip (Nat.le_of_eq hnewLength.symm)
  have hzip : ((topkValues.zip new).map Prod.fst).Nodup := by
    rw [hkeys]
    exact htopk
  have htake : (([] ++ (topkValues.zip new).take remainLen.toNat).map Prod.fst).Nodup := by
    rw [List.nil_append]
    exact hzip.sublist ((List.take_sublist _ _).map _)
  have hdrop : (([] ++ (topkValues.zip new).drop remainLen.toNat).map Prod.fst).Nodup := by
    rw [List.nil_append]
    exact hzip.sublist ((List.drop_sublist _ _).map _)
  refine ⟨⟨movedBlocks blocks remainIdxs topkValues, (topkValues.zip new).take remainLen.toNat,
    (topkValues.zip new).drop remainLen.toNat⟩, ?_, rfl, ?_⟩
  · unfold getMvMap
    rw [newBlock_eq htopkRange, Option.bind_eq_bind, Option.bind_some, hfill, Option.bind_eq_bind,
      Option.bind_some]
    show some _ = some _
    rw [splitMaps_eq, Nat.sub_zero, Dict.foldl_set_of_nodup htake, Dict.foldl_set_of_nodup hdrop]
    have hmoves := Dict.foldl_set_of_nodup hsources
    unfold movedBlocks at hmoves ⊢
    rw [hmoves, List.nil_append, List.nil_append, List.nil_append]
  · show Assigned _ _ _ ((topkValues.zip new).take _ ++ (topkValues.zip new).drop _)
    rw [List.take_append_drop]
    exact ⟨hkeys, hperm⟩

include hremain htopk hlength in
theorem Assigned.values {assigned : List (Nat × Nat)}
    (h : Assigned blocks remainIdxs topkValues assigned) :
    (assigned.map Prod.snd).Perm (remainIdxs.map (blockOf blocks)) := by
  have hstay := (hitIdxs_append_freeBlock hremain htopk).map (blockOf blocks)
  rw [← map_snd_moved hremain htopk hlength, List.map_append, List.map_map] at hstay
  have hsnd := h.perm.map Prod.snd
  rw [List.map_append, List.map_map, List.map_map] at hsnd
  exact hsnd.trans hstay

theorem Assigned.cases {assigned : List (Nat × Nat)} {a : Nat × Nat}
    (h : Assigned blocks remainIdxs topkValues assigned) (ha : a ∈ assigned) :
    a.1 ∈ hitIdxs remainIdxs topkValues ∧ a.2 = blockOf blocks a.1 ∨
      a.1 ∈ missIdxs remainIdxs topkValues ∧
        (blockOf blocks a.1, a.2) ∈ movedBlocks blocks remainIdxs topkValues := by
  rcases List.mem_append.mp (h.perm.subset ha) with hhit | hmoved
  · obtain ⟨idx, hidx, rfl⟩ := List.mem_map.mp hhit
    exact Or.inl ⟨hidx, rfl⟩
  · obtain ⟨p, hp, rfl⟩ := List.mem_map.mp hmoved
    exact Or.inr ⟨(List.of_mem_zip hp).1, List.mem_map.mpr ⟨p, hp, rfl⟩⟩

include hblocks hremain htopk hremainRange htopkRange hlength

theorem blockOf_notMem_dests (idx : Nat) (hidx : idx ∈ topkValues) :
    blockOf blocks idx ∉ (movedBlocks blocks remainIdxs topkValues).map Prod.snd := by
  rw [map_snd_movedBlocks hremain htopk hlength]
  intro hmem
  have hfree := mem_map_blockOf hblocks (htopkRange idx hidx)
    (fun i hi => hremainRange i (mem_freeBlock.mp hi).1) hmem
  exact (mem_freeBlock.mp hfree).2 hidx

theorem safe_movedBlocks : Moves.Safe (movedBlocks blocks remainIdxs topkValues) where
  nodup := by
    rw [map_snd_movedBlocks hremain htopk hlength]
    exact nodup_map_blockOf hblocks (hremain.filter _)
      fun idx hidx => hremainRange idx (mem_freeBlock.mp hidx).1
  disjoint m hm := by
    have hsource := List.mem_map_of_mem (f := Prod.fst) hm
    rw [map_fst_movedBlocks hremain htopk hlength] at hsource
    obtain ⟨idx, hidx, heq⟩ := List.mem_map.mp hsource
    rw [← heq]
    exact blockOf_notMem_dests hblocks hremain htopk hremainRange htopkRange hlength idx
      (List.mem_of_mem_filter hidx)

/-- For every choice of as many distinct indices as stay: the loop never pops from an empty list, the
chosen indices are assigned the blocks that stay, and the copies do not depend on their order. -/
theorem getMvMap_safe (remainLen : Int) : ∃ plan,
    getMvMap blocks remainIdxs topkValues remainLen = some plan ∧
    MovePlanOk blocks remainIdxs topkValues plan ∧
    ∀ (β : Type) (cfg : Blocks.GsaConfig) (layerCache : Nat → β),
      remainIdxs = Blocks.kvcacheInitLastChunk cfg blocks.length →
      remainLen = cfg.computeTopkLen blocks.length →
      kvcacheInitLastChunk cfg blocks topkValues layerCache =
        some (plan, Moves.copyAll layerCache plan.mvMap) := by
  obtain ⟨plan, hplan, hmoves, hassigned⟩ := getMvMap_eq hblocks hremain htopk hremainRange htopkRange
    hlength remainLen
  have hsafe := safe_movedBlocks hblocks hremain htopk hremainRange htopkRange hlength
  have hnotDest := blockOf_notMem_dests hblocks hremain htopk hremainRange htopkRange hlength
  have hchosen : ∀ a ∈ plan.remainMap ++ plan.prefetchMap, a.1 ∈ topkValues := by
    intro a ha
    rw [← hassigned.keys]
    exact List.mem_map_of_mem ha
  have hsource : ∀ a ∈ plan.remainMap ++ plan.prefetchMap, ∀ source, blocks[a.1]? = some source →
      source = blockOf blocks a.1 := by
    intro a ha source hget
    rw [getElem?_blockOf (htopkRange _ (hchosen a ha))] at hget
    exact (Option.some.inj hget).symm
  have hvalues := hassigned.values hremain htopk hlength
  refine ⟨plan, hplan, ⟨hassigned.keys, ?_, ?_, ?_, ?_, ?_⟩, ?_⟩
  · have hstay : (remainIdxs.map fun idx => blocks[idx]?) =
        (remainIdxs.map (blockOf blocks)).map some := by
      rw [List.map_map]
      exact List.map_congr_left fun idx hidx => getElem?_blockOf (hremainRange idx hidx)
    rw [hstay]
    have hsome := hvalues.map some
    rw [List.map_map] at hsome
    exact hsome
  · exact hvalues.nodup_iff.mpr (nodup_map_blockOf hblocks hremain hremainRange)
  · intro m hm hmem
    rw [hmoves] at hm hmem
    obtain ⟨m', hm', heq⟩ := List.mem_map.mp hmem
    exact hsafe.disjoint m' hm' (heq ▸ List.mem_map_of_mem hm)
  · intro a ha source hget hnot
    rw [hsource a ha source hget, hmoves, map_fst_movedBlocks hremain htopk hlength] at hnot
    rw [hmoves]
    rcases hassigned.cases ha with ⟨hhit, heq⟩ | ⟨hmiss, _⟩
    · rw [heq]
      exact hnotDest a.1 (hchosen a ha)
    · exact absurd (List.mem_map_of_mem hmiss) hnot
  · intro β layerCache order horder a ha source hget
    rw [hsource a ha source hget]
    rw [hmoves] at horder
    rcases hassigned.cases ha with ⟨hhit, heq⟩ | ⟨_, hmove⟩
    · rw [heq]
      refine Moves.copyAll_of_notMem fun hmem => ?_
      exact hnotDest a.1 (hchosen a ha) ((horder.map Prod.snd).subset hmem)
    · exact Moves.copyAll_of_mem (hsafe.perm horder) (horder.symm.subset hmove)
  · rintro β cfg layerCache rfl rfl
    unfold kvcacheInitLastChunk
    dsimp only
    rw [if_neg (not_not.mpr hlength.symm), hplan]
    rfl

end Plan

/-- Of five blocks the first and the last two stay, and the top-k takes 3, 0 and 2. -/
theorem getMvMap_safe_five :
    ∃ plan, getMvMap [10, 11, 12, 13, 14] [0, 3, 4] [3, 0, 2] 2 = some plan ∧
      MovePlanOk [10, 11, 12, 13, 14] [0, 3, 4] [3, 0, 2] plan := by
  have hblocks : [10, 11, 12, 13, 14].Nodup := by decide
  have hremain : [0, 3, 4].Nodup := by decide
  have htopk : [3, 0, 2].Nodup := by decide
  obtain ⟨plan, hplan, hok, _⟩ := getMvMap_safe hblocks hremain htopk (by decide) (by decide) rfl 2
  exact ⟨plan, hplan, hok⟩

end UnifiedCache.Gsa.MvMap
