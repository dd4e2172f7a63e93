import UnifiedCache.Gsa.Prefetch

/-!
# Proofs: the prefetch engine

The two maps of a layer stay inverse to each other whatever the loads do, since each load that ends moves
its block in both. What a call reports is true when all its loads succeed: then every hit and every index
that was missing is in its block at the end.
-/

open Function Lib

namespace UnifiedCache.Gsa.Prefetch

open Std (TreeMap)
open Layer (loadKVToHBM)

variable {cfg : Config} {layer : Layer} {limit : Nat} {hits hits' : Hits} {topk missIdxs : List Nat}
  {idx block k b : Nat} {loads : List (Nat × Nat)}

/-! ## Hits -/

/-- The blocks of the hits are those of `hitBlocksIdx`, each once. -/
structure Hits.Ok (hits : Hits) : Prop where
  mem : ∀ b, b ∈ hits.hitBlocks ↔ ∃ k, hits.hitBlocksIdx.get? k = some b
  card : hits.hitBlocks.card = hits.hitBlocksIdx.size

theorem Hits.Ok.empty : Hits.empty.Ok where
  mem _ := ⟨fun h => absurd h (Finset.notMem_empty _), fun ⟨_, h⟩ => nomatch h⟩
  card := rfl

theorem notMem_of_get? {map : TreeMap Nat Nat} (hk : map.get? k = none) : k ∉ map := by
  rw [Std.TreeMap.mem_iff_isSome_getElem?]
  intro hsome
  have hget : map[k]? = none := hk
  rw [hget] at hsome
  cases hsome

theorem Hits.get?_insert (hk : hits.hitBlocksIdx.get? idx = none) :
    (hits.insert idx block).hitBlocksIdx.get? =
      update hits.hitBlocksIdx.get? idx (some block) := by
  have hnot := notMem_of_get? hk
  rw [← get?_insert_eq]
  funext k
  refine Std.TreeMap.getElem?_insertIfNew.trans (Eq.trans ?_ Std.TreeMap.getElem?_insert.symm)
  simp only [hnot, not_false_eq_true, and_true]

theorem Hits.Ok.insert (h : hits.Ok) (hk : hits.hitBlocksIdx.get? idx = none)
    (hb : block ∉ hits.hitBlocks) : (hits.insert idx block).Ok := by
  constructor
  · intro b
    rw [Hits.get?_insert hk]
    refine (Finset.mem_insert).trans ⟨?_, ?_⟩
    · rintro (rfl | hmem)
      · exact ⟨idx, update_self _ _ _⟩
      · obtain ⟨k, hget⟩ := (h.mem b).mp hmem
        refine ⟨k, ?_⟩
        rw [update_of_ne, hget]
        rintro rfl
        rw [hk] at hget
        cases hget
    · rintro ⟨k, hget⟩
      by_cases heq : k = idx
      · subst heq
        rw [update_self, Option.some.injEq] at hget
        exact .inl hget.symm
      · rw [update_of_ne heq] at hget
        exact .inr ((h.mem b).mpr ⟨k, hget⟩)
  · have hnot := notMem_of_get? hk
    have hsize : (hits.insert idx block).hitBlocksIdx.size = hits.hitBlocksIdx.size + 1 :=
      Std.TreeMap.size_insertIfNew.trans (if_neg hnot)
    rw [hsize, ← h.card]
    exact Finset.card_insert_of_notMem hb

theorem Hits.Ok.length (h : hits.Ok) : hits.hitBlocks.card = hits.hitBlocksIdx.toList.length := by
  rw [h.card, Std.TreeMap.length_toList]

/-- What has been found among the indices `seen`. -/
structure Found (layer : Layer) (seen : List Nat) (hits : Hits) (missIdxs : List Nat) : Prop where
  ok : hits.Ok
  hit : ∀ k b, hits.hitBlocksIdx.get? k = some b → k ∈ seen ∧ layer.docsTable.get? k = some b
  nodup : missIdxs.Nodup
  miss : ∀ k ∈ missIdxs, k ∈ seen ∧ layer.docsTable.get? k = none

theorem Found.empty : Found layer [] .empty [] := ⟨.empty, nofun, .nil, nofun⟩

theorem Found.mono {seen seen' : List Nat} (h : Found layer seen hits missIdxs)
    (hsub : ∀ k ∈ seen, k ∈ seen') : Found layer seen' hits missIdxs where
  ok := h.ok
  hit k b hk := ⟨hsub k (h.hit k b hk).1, (h.hit k b hk).2⟩
  nodup := h.nodup
  miss k hk := ⟨hsub k (h.miss k hk).1, (h.miss k hk).2⟩

theorem Found.add_hit {seen : List Nat} (h : Found layer seen hits missIdxs)
    (hinv : Inverse layer.docsTable.get? layer.blocksMap.get?) (hidx : idx ∉ seen)
    (hdoc : layer.docsTable.get? idx = some block) :
    Found layer (seen ++ [idx]) (hits.insert idx block) missIdxs := by
  have hnone : hits.hitBlocksIdx.get? idx = none := by
    by_contra hne
    obtain ⟨b, hb⟩ := Option.ne_none_iff_exists'.mp hne
    exact hidx (h.hit idx b hb).1
  have hnew : block ∉ hits.hitBlocks := by
    intro hmem
    obtain ⟨k, hk⟩ := (h.ok.mem block).mp hmem
    obtain ⟨hseen, hdoc'⟩ := h.hit k block hk
    rw [hinv.injective hdoc' hdoc] at hseen
    exact hidx hseen
  refine ⟨h.ok.insert hnone hnew, fun k b hk => ?_, h.nodup, fun k hk => ?_⟩
  · rw [Hits.get?_insert hnone] at hk
    by_cases heq : k = idx
    · subst heq
      rw [update_self, Option.some.injEq] at hk
      subst hk
      exact ⟨List.mem_append_right _ (List.mem_singleton_self _), hdoc⟩
    · rw [update_of_ne heq] at hk
      exact ⟨List.mem_append_left _ (h.hit k b hk).1, (h.hit k b hk).2⟩
  · exact ⟨List.mem_append_left _ (h.miss k hk).1, (h.miss k hk).2⟩

theorem Found.add_miss {seen : List Nat} (h : Found layer seen hits missIdxs) (hidx : idx ∉ seen)
    (hdoc : layer.docsTable.get? idx = none) :
    Found layer (seen ++ [idx]) hits (missIdxs ++ [idx]) := by
  refine ⟨h.ok, fun k b hk => ⟨List.mem_append_left _ (h.hit k b hk).1, (h.hit k b hk).2⟩, ?_,
    fun k hk => ?_⟩
  · refine List.nodup_append.mpr ⟨h.nodup, List.nodup_singleton _, fun x hx y hy heq => ?_⟩
    rw [heq, List.mem_singleton.mp hy] at hx
    exact hidx (h.miss idx hx).1
  · rcases List.mem_append.mp hk with hk | hk
    · exact ⟨List.mem_append_left _ (h.miss k hk).1, (h.miss k hk).2⟩
    · rw [List.mem_singleton.mp hk]
      exact ⟨List.mem_append_right _ (List.mem_singleton_self _), hdoc⟩

theorem getHitAndMissBlock_found (hinv : Inverse layer.docsTable.get? layer.blocksMap.get?) :
    ∀ {seen : List Nat} {hits : Hits} {missIdxs : List Nat}, (seen ++ topk).Nodup →
      Found layer seen hits missIdxs →
      Found layer (seen ++ topk) (layer.getHitAndMissBlock limit topk hits missIdxs).1
        (layer.getHitAndMissBlock limit topk hits missIdxs).2 := by
  induction topk with
  | nil =>
    intro seen hits missIdxs _ h
    rw [List.append_nil]
    exact h
  | cons item topk ih =>
    intro seen hits missIdxs hnodup h
    have hsplit : seen ++ item :: topk = (seen ++ [item]) ++ topk := by
      rw [List.append_assoc]
      rfl
    have hitem : item ∉ seen := by
      intro hmem
      exact (List.nodup_append.mp hnodup).2.2 item hmem item List.mem_cons_self rfl
    rw [hsplit] at hnodup ⊢
    unfold Layer.getHitAndMissBlock
    cases hdoc : layer.docsTable.get? item with
    | none => exact ih hnodup (h.add_miss hitem hdoc)
    | some block =>
      have hadd := h.add_hit hinv hitem hdoc
      dsimp only
      split_ifs
      · exact hadd.mono fun k hk => List.mem_append_left _ hk
      · exact ih hnodup hadd

/-! ## The blocks to load -/

/-- The blocks taken from the free list. -/
structure Taken (free missIdxs : List Nat) (hits : Hits) (loads : List (Nat × Nat)) (hits' : Hits) :
    Prop where
  ok : hits'.Ok
  hit : ∀ k b, hits'.hitBlocksIdx.get? k = some b →
    hits.hitBlocksIdx.get? k = some b ∨ (b, k) ∈ loads
  block : ∀ p ∈ loads, p.1 ∈ free ∧ p.1 ∉ hits.hitBlocks
  nodup : (loads.map Prod.fst).Nodup
  idx : (loads.map Prod.snd).Sublist missIdxs

theorem Taken.none {free : List Nat} (h : hits.Ok) : Taken free missIdxs hits [] hits where
  ok := h
  hit _ _ hk := .inl hk
  block := nofun
  nodup := .nil
  idx := List.nil_sublist _

theorem takeFreeBlocks_taken : ∀ (free missIdxs : List Nat) (hits : Hits), hits.Ok →
    missIdxs.Nodup → (∀ k ∈ missIdxs, hits.hitBlocksIdx.get? k = none) →
    Taken free missIdxs hits (takeFreeBlocks limit free missIdxs hits).1
      (takeFreeBlocks limit free missIdxs hits).2 := by
  intro free
  induction free with
  | nil =>
    intro missIdxs hits h _ _
    exact .none h
  | cons oneFreeBlockID free ih =>
    intro missIdxs hits h hnodup hnone
    cases missIdxs with
    | nil => exact .none h
    | cons idx missIdxs =>
      unfold takeFreeBlocks
      split_ifs with hlt hmem
      · have hrest := ih (idx :: missIdxs) hits h hnodup hnone
        exact { hrest with
          block := fun p hp => ⟨List.mem_cons_of_mem _ (hrest.block p hp).1, (hrest.block p hp).2⟩ }
      · obtain ⟨hidx, hnodup⟩ := List.nodup_cons.mp hnodup
        have hget : (hits.insert idx oneFreeBlockID).hitBlocksIdx.get? = _ :=
          Hits.get?_insert (hnone idx List.mem_cons_self)
        have hrest := ih missIdxs (hits.insert idx oneFreeBlockID)
          (h.insert (hnone idx List.mem_cons_self) hmem) hnodup fun k hk => by
            have hne : k ≠ idx := by
              rintro rfl
              exact hidx hk
            rw [hget, update_of_ne hne]
            exact hnone k (List.mem_cons_of_mem _ hk)
        have hnot : ∀ p ∈ (takeFreeBlocks limit free missIdxs (hits.insert idx oneFreeBlockID)).1,
            p.1 ≠ oneFreeBlockID ∧ p.1 ∉ hits.hitBlocks := by
          intro p hp
          have hp' := (hrest.block p hp).2
          exact ⟨fun heq => hp' (heq ▸ Finset.mem_insert_self _ _),
            fun hmem => hp' (Finset.mem_insert_of_mem hmem)⟩
        refine ⟨hrest.ok, fun k b hk => ?_, fun p hp => ?_, ?_, hrest.idx.cons_cons idx⟩
        · rcases hrest.hit k b hk with hk | hk
          · rw [hget] at hk
            by_cases heq : k = idx
            · subst heq
              rw [update_self, Option.some.injEq] at hk
              subst hk
              exact .inr List.mem_cons_self
            · rw [update_of_ne heq] at hk
              exact .inl hk
          · exact .inr (List.mem_cons_of_mem _ hk)
        · rcases List.mem_cons.mp hp with rfl | hp
          · exact ⟨List.mem_cons_self, hmem⟩
          · exact ⟨List.mem_cons_of_mem _ (hrest.block p hp).1, (hnot p hp).2⟩
        · refine List.nodup_cons.mpr ⟨fun hmem => ?_, hrest.nodup⟩
          obtain ⟨p, hp, heq⟩ := List.mem_map.mp hmem
          exact (hnot p hp).1 heq
      · exact .none h

/-! ## Loads -/

/-- The blocks to load are there, and the indices are not. -/
structure Loadable (layer : Layer) (loads : List (Nat × Nat)) : Prop where
  block : ∀ p ∈ loads, ∃ k, layer.blocksMap.get? p.1 = some k
  idx : ∀ p ∈ loads, layer.docsTable.get? p.2 = none
  blocks_nodup : (loads.map Prod.fst).Nodup
  idxs_nodup : (loads.map Prod.snd).Nodup

/-- Each block holds the KV of its index. -/
def Layer.Held (layer : Layer) : Prop :=
  ∀ k b, layer.docsTable.get? k = some b → layer.kv b = some k

theorem assign_get? (hb : layer.blocksMap.get? block = some k) :
    (layer.assign block idx).docsTable.get? =
        update (update layer.docsTable.get? k none) idx (some block) ∧
      (layer.assign block idx).blocksMap.get? =
        update layer.blocksMap.get? block (some idx) := by
  unfold Layer.assign
  dsimp only
  rw [hb, Option.getD_some, get?_insert_eq, get?_erase_eq, get?_insert_eq]
  exact ⟨rfl, rfl⟩

theorem assign_inverse (hinv : Inverse layer.docsTable.get? layer.blocksMap.get?)
    (hb : layer.blocksMap.get? block = some k) (hidx : layer.docsTable.get? idx = none) :
    Inverse (layer.assign block idx).docsTable.get? (layer.assign block idx).blocksMap.get? := by
  rw [(assign_get? hb).1, (assign_get? hb).2]
  exact hinv.reassign hb hidx

theorem Loadable.assign (h : Loadable layer ((block, idx) :: loads)) :
    Loadable (layer.assign block idx) loads := by
  obtain ⟨k, hk⟩ := h.block _ List.mem_cons_self
  obtain ⟨hblock, hblocks⟩ := List.nodup_cons.mp h.blocks_nodup
  obtain ⟨hidx, hidxs⟩ := List.nodup_cons.mp h.idxs_nodup
  refine ⟨fun p hp => ?_, fun p hp => ?_, hblocks, hidxs⟩
  · have hne : p.1 ≠ block := by
      rintro rfl
      exact hblock (List.mem_map.mpr ⟨p, hp, rfl⟩)
    rw [(assign_get? hk).2, update_of_ne hne]
    exact h.block p (List.mem_cons_of_mem _ hp)
  · have hne : p.2 ≠ idx := by
      rintro rfl
      exact hidx (List.mem_map.mpr ⟨p, hp, rfl⟩)
    rw [(assign_get? hk).1, update_of_ne hne]
    have hnone := h.idx p (List.mem_cons_of_mem _ hp)
    by_cases heq : p.2 = k
    · rw [heq, update_self]
    · rw [update_of_ne heq, hnone]

theorem assign_kept (hinv : Inverse layer.docsTable.get? layer.blocksMap.get?)
    (h : Loadable layer ((block, idx) :: loads)) {i : Nat} (hdoc : layer.docsTable.get? i = some b)
    (hne : b ≠ block) : (layer.assign block idx).docsTable.get? i = some b := by
  obtain ⟨k, hk⟩ := h.block _ List.mem_cons_self
  have hidx := h.idx _ List.mem_cons_self
  rw [(assign_get? hk).1, update_of_ne, update_of_ne, hdoc]
  · rintro rfl
    have hblock := (hinv i block).mpr hk
    rw [hdoc, Option.some.injEq] at hblock
    exact hne hblock
  · rintro rfl
    rw [hdoc] at hidx
    cases hidx

theorem Layer.Held.assign (hinv : Inverse layer.docsTable.get? layer.blocksMap.get?)
    (h : Loadable layer ((block, idx) :: loads)) (hheld : layer.Held) :
    ({ layer with kv := update layer.kv block (some idx) }.assign block idx).Held := by
  obtain ⟨k, hk⟩ := h.block _ List.mem_cons_self
  intro i b hdoc
  have hget : ({ layer with kv := update layer.kv block (some idx) }.assign
      block idx).docsTable.get? = _ := (assign_get? hk).1
  rw [hget] at hdoc
  show update layer.kv block (some idx) b = some i
  by_cases hi : i = idx
  · subst hi
    rw [update_self, Option.some.injEq] at hdoc
    rw [← hdoc, update_self]
  · rw [update_of_ne hi] at hdoc
    have hik : i ≠ k := by
      rintro rfl
      rw [update_self] at hdoc
      cases hdoc
    rw [update_of_ne hik] at hdoc
    have hb : b ≠ block := by
      rintro rfl
      exact hik (hinv.injective hdoc ((hinv k b).mpr hk))
    rw [update_of_ne hb]
    exact hheld i b hdoc

variable {outcome : Nat → Load}

theorem loadKVToHBM_inverse : ∀ {i : Nat} {layer : Layer},
    Inverse layer.docsTable.get? layer.blocksMap.get? → Loadable layer loads →
    Inverse (loadKVToHBM cfg outcome i loads layer).docsTable.get?
      (loadKVToHBM cfg outcome i loads layer).blocksMap.get? := by
  induction loads with
  | nil => exact fun hinv _ => hinv
  | cons load loads ih =>
    intro i layer hinv h
    obtain ⟨k, hk⟩ := h.block load List.mem_cons_self
    have hidx := h.idx load List.mem_cons_self
    have hassign := ih (i := i + 1) (assign_inverse hinv hk hidx) h.assign
    have hload := @ih (i + 1)
      ({ layer with kv := update layer.kv load.1 (some load.2) }.assign load.1 load.2)
      (assign_inverse hinv hk hidx) ⟨h.assign.block, h.assign.idx, h.assign.3, h.assign.4⟩
    unfold Layer.loadKVToHBM
    split_ifs
    · exact hassign
    · cases outcome i with
      | stop => exact hinv
      | failure => exact hinv
      | success => exact hload

theorem loadKVToHBM_loaded (hdirect : cfg.isPythonLoad = false) :
    ∀ {i : Nat} {layer : Layer}, Inverse layer.docsTable.get? layer.blocksMap.get? →
      Loadable layer loads → layer.Held → (∀ j < loads.length, outcome (i + j) = .success) →
      (loadKVToHBM cfg outcome i loads layer).Held ∧
      (∀ p ∈ loads, (loadKVToHBM cfg outcome i loads layer).docsTable.get? p.2 = some p.1) ∧
      ∀ k b, layer.docsTable.get? k = some b → (∀ p ∈ loads, b ≠ p.1) →
        (loadKVToHBM cfg outcome i loads layer).docsTable.get? k = some b := by
  induction loads with
  | nil => exact fun _ _ hheld _ => ⟨hheld, nofun, fun _ _ hdoc _ => hdoc⟩
  | cons load loads ih =>
    intro i layer hinv h hheld houtcome
    obtain ⟨k, hk⟩ := h.block load List.mem_cons_self
    have hidx := h.idx load List.mem_cons_self
    obtain ⟨hheld', hloaded, hkept⟩ := @ih (i + 1)
      ({ layer with kv := update layer.kv load.1 (some load.2) }.assign load.1 load.2)
      (assign_inverse hinv hk hidx) ⟨h.assign.block, h.assign.idx, h.assign.3, h.assign.4⟩
      (hheld.assign hinv h) fun j hj => by
        rw [Nat.add_right_comm, Nat.add_assoc]
        exact houtcome (j + 1) (Nat.succ_lt_succ hj)
    have hsuccess : outcome i = .success := houtcome 0 (Nat.succ_pos _)
    unfold Layer.loadKVToHBM
    rw [if_neg (by rw [hdirect]; exact Bool.false_ne_true), hsuccess]
    refine ⟨hheld', fun p hp => ?_, fun x b hdoc hne => ?_⟩
    · rcases List.mem_cons.mp hp with rfl | hp
      · refine hkept p.2 p.1 ?_ fun q hq heq => ?_
        · show (layer.assign p.1 p.2).docsTable.get? p.2 = some p.1
          rw [(assign_get? hk).1, update_self]
        · have hblock := (List.nodup_cons.mp h.blocks_nodup).1
          rw [heq] at hblock
          exact hblock (List.mem_map_of_mem hq)
      · exact hloaded p hp
    · refine hkept x b ?_ fun p hp => hne p (List.mem_cons_of_mem _ hp)
      exact assign_kept hinv h hdoc (hne load List.mem_cons_self)

/-! ## One call -/

/-- What holds of a layer whatever the loads do. -/
structure LayerInv (layer : Layer) : Prop where
  inverse : Inverse layer.docsTable.get? layer.blocksMap.get?
  free : ∀ b ∈ layer.freeBlock, ∃ k, layer.blocksMap.get? b = some k
  length : layer.successTableLen = layer.loadSuccessBlocks.length

theorem needLoad_spec (h : LayerInv layer) (topkLen : Nat) (hnodup : topk.Nodup) :
    Loadable layer (layer.needLoad cfg topkLen topk).1 ∧
    (layer.needLoad cfg topkLen topk).2.Ok ∧
    ∀ k b, (layer.needLoad cfg topkLen topk).2.hitBlocksIdx.get? k = some b → k ∈ topk ∧
      ((b, k) ∈ (layer.needLoad cfg topkLen topk).1 ∨ layer.docsTable.get? k = some b ∧
        ∀ p ∈ (layer.needLoad cfg topkLen topk).1, b ≠ p.1) := by
  have hfound : Found layer topk _ _ :=
    @getHitAndMissBlock_found layer (cfg.limit topkLen) topk h.inverse [] .empty [] hnodup .empty
  unfold Layer.needLoad
  dsimp only
  split_ifs
  · have htaken := @takeFreeBlocks_taken (cfg.limit topkLen) layer.freeBlock _ _ hfound.ok
      hfound.nodup fun k hk => by
        by_contra hne
        obtain ⟨b, hb⟩ := Option.ne_none_iff_exists'.mp hne
        have hdoc := (hfound.hit k b hb).2
        rw [(hfound.miss k hk).2] at hdoc
        cases hdoc
    have hmiss : ∀ p ∈ (takeFreeBlocks (cfg.limit topkLen) layer.freeBlock
        (layer.getHitAndMissBlock (cfg.limit topkLen) topk .empty []).2
        (layer.getHitAndMissBlock (cfg.limit topkLen) topk .empty []).1).1,
        p.2 ∈ topk ∧ layer.docsTable.get? p.2 = none := by
      intro p hp
      exact hfound.miss p.2 (htaken.idx.subset (List.mem_map_of_mem hp))
    refine ⟨⟨fun p hp => h.free _ (htaken.block p hp).1, fun p hp => (hmiss p hp).2, htaken.nodup,
      htaken.idx.nodup hfound.nodup⟩, htaken.ok, fun k b hk => ?_⟩
    rcases htaken.hit k b hk with hk | hk
    · refine ⟨(hfound.hit k b hk).1, .inr ⟨(hfound.hit k b hk).2, fun p hp heq => ?_⟩⟩
      refine (htaken.block p hp).2 ((hfound.ok.mem p.1).mpr ⟨k, ?_⟩)
      rw [← heq]
      exact hk
    · exact ⟨(hmiss _ hk).1, .inl hk⟩
  · exact ⟨⟨nofun, nofun, .nil, .nil⟩, hfound.ok,
      fun k b hk => ⟨(hfound.hit k b hk).1, .inr ⟨(hfound.hit k b hk).2, nofun⟩⟩⟩

theorem mem_freeBlocks {promptLen : Nat} (h : b ∈ layer.freeBlocks promptLen hits) :
    ∃ k, layer.docsTable.get? k = some b ∧ hits.hitBlocksIdx.get? k = none := by
  obtain ⟨p, hp, rfl⟩ := List.mem_map.mp h
  obtain ⟨hmem, hnone⟩ := List.mem_filter.mp hp
  have hdoc := (List.takeWhile_sublist _).subset hmem
  exact ⟨p.1, mem_toList_iff_get?.mp hdoc, Option.isNone_iff_eq_none.mp hnone⟩

theorem LayerInv.runOneBsPrefetch (h : LayerInv layer) {promptLen topkLen : Nat}
    (hnodup : topk.Nodup) :
    LayerInv (layer.runOneBsPrefetch cfg promptLen topkLen topk outcome) := by
  obtain ⟨hloadable, hok, -⟩ := @needLoad_spec cfg _ _ h topkLen hnodup
  have hinv := @loadKVToHBM_inverse cfg _ outcome 0 _ h.inverse hloadable
  refine ⟨hinv, fun b hb => ?_, hok.length⟩
  obtain ⟨k, hdoc, -⟩ := mem_freeBlocks hb
  exact ⟨k, (hinv k b).mp hdoc⟩

theorem runOneBsPrefetch_truthful (hdirect : cfg.isPythonLoad = false) (h : LayerInv layer)
    (hheld : layer.Held) {promptLen topkLen : Nat} (hnodup : topk.Nodup)
    (houtcome : ∀ j < (layer.needLoad cfg topkLen topk).1.length, outcome j = .success) :
    (layer.runOneBsPrefetch cfg promptLen topkLen topk outcome).Held ∧
      (layer.runOneBsPrefetch cfg promptLen topkLen topk outcome).Truthful topk := by
  obtain ⟨hloadable, hok, hhits⟩ := @needLoad_spec cfg _ _ h topkLen hnodup
  have hinv := @loadKVToHBM_inverse cfg _ outcome 0 _ h.inverse hloadable
  have hsuccess : ∀ j < (layer.needLoad cfg topkLen topk).1.length, outcome (0 + j) = .success := by
    intro j hj
    rw [Nat.zero_add]
    exact houtcome j hj
  obtain ⟨hheld', hloaded, hkept⟩ := loadKVToHBM_loaded hdirect h.inverse hloadable hheld hsuccess
  have hplaced : ∀ p ∈ (layer.needLoad cfg topkLen topk).2.hitBlocksIdx.toList, p.1 ∈ topk ∧
      (loadKVToHBM cfg outcome 0 (layer.needLoad cfg topkLen topk).1 layer).docsTable.get? p.1 =
        some p.2 := by
    intro p hp
    obtain ⟨htopk, hload | ⟨hdoc, hne⟩⟩ := hhits p.1 p.2 (mem_toList_iff_get?.mp hp)
    · exact ⟨htopk, hloaded _ hload⟩
    · exact ⟨htopk, hkept p.1 p.2 hdoc hne⟩
  refine ⟨hheld', fun p hp => ⟨(hplaced p hp).1, hheld' _ _ (hplaced p hp).2⟩, fun p hp hfree => ?_⟩
  obtain ⟨k, hdoc, hnone⟩ := mem_freeBlocks hfree
  rw [hinv.injective hdoc (hplaced p hp).2] at hnone
  have hget := mem_toList_iff_get?.mp hp
  rw [hnone] at hget
  cases hget

/-! ## Runs -/

variable {s s' : State cfg} {e : Event cfg} {pairs : List (Nat × Nat)} {free : List Nat}

theorem Layer.set_append (pairs : List (Nat × Nat)) (p : Nat × Nat) (free : List Nat) :
    Layer.set (pairs ++ [p]) free = (Layer.set pairs free).add p.1 p.2 := by
  unfold Layer.set
  rw [List.foldl_append]
  rfl

theorem set_spec (free : List Nat) : OneToOne pairs →
    (∀ k b, (Layer.set pairs free).docsTable.get? k = some b ↔ (k, b) ∈ pairs) ∧
    (∀ k b, (Layer.set pairs free).blocksMap.get? b = some k ↔ (k, b) ∈ pairs) ∧
    (∀ k b, (k, b) ∈ pairs → (Layer.set pairs free).kv b = some k) ∧
    (Layer.set pairs free).freeBlock = free ∧ (Layer.set pairs free).loadSuccessBlocks = [] ∧
    (Layer.set pairs free).successTableLen = 0 := by
  induction pairs using List.reverseRecOn with
  | nil => exact fun _ => ⟨fun _ _ => ⟨nofun, nofun⟩, fun _ _ => ⟨nofun, nofun⟩, nofun, rfl, rfl, rfl⟩
  | append_singleton pairs p ih =>
    intro h
    obtain ⟨hdocs, hblocks, hkv, hrest⟩ := ih fun q hq r hr =>
      h q (List.mem_append_left _ hq) r (List.mem_append_left _ hr)
    have hp : ∀ k b, (k, b) ∈ pairs → (k = p.1 ↔ b = p.2) := fun k b hmem =>
      h (k, b) (List.mem_append_left _ hmem) p (List.mem_append_right _ (List.mem_singleton_self _))
    have hmem : ∀ k b, (k, b) ∈ pairs ++ [p] ↔ (k, b) ∈ pairs ∨ k = p.1 ∧ b = p.2 := by
      intro k b
      rw [List.mem_append, List.mem_singleton, Prod.ext_iff]
    rw [Layer.set_append]
    unfold Layer.add
    dsimp only
    refine ⟨fun k b => ?_, fun k b => ?_, fun k b hkb => ?_, hrest⟩
    · rw [get?_insert_eq, hmem]
      by_cases hk : k = p.1
      · rw [hk, update_self, Option.some.injEq]
        refine ⟨fun hb => .inr ⟨rfl, hb.symm⟩, ?_⟩
        rintro (hold | ⟨-, hb⟩)
        · exact ((hp p.1 b hold).mp rfl).symm
        · exact hb.symm
      · rw [update_of_ne hk, hdocs]
        exact ⟨.inl, fun hor => hor.resolve_right fun hnew => hk hnew.1⟩
    · rw [get?_insert_eq, hmem]
      by_cases hb : b = p.2
      · rw [hb, update_self, Option.some.injEq]
        refine ⟨fun hk => .inr ⟨hk.symm, rfl⟩, ?_⟩
        rintro (hold | ⟨hk, -⟩)
        · exact ((hp k p.2 hold).mpr rfl).symm
        · exact hk.symm
      · rw [update_of_ne hb, hblocks]
        exact ⟨.inl, fun hor => hor.resolve_right fun hnew => hb hnew.2⟩
    · by_cases hb : b = p.2
      · rw [hb, update_self, Option.some.injEq]
        rcases (hmem k b).mp hkb with hold | ⟨hk, -⟩
        · exact ((hp k b hold).mpr hb).symm
        · exact hk.symm
      · rw [update_of_ne hb]
        exact hkv k b (((hmem k b).mp hkb).resolve_right fun hnew => hb hnew.2)

theorem LayerInv.set (hpairs : OneToOne pairs) (hfree : ∀ b ∈ free, ∃ k, (k, b) ∈ pairs) :
    LayerInv (.set pairs free) ∧ (Layer.set pairs free).Held := by
  obtain ⟨hdocs, hblocks, hkv, hfreeBlock, hsuccess, hlen⟩ := set_spec free hpairs
  refine ⟨⟨fun k b => (hdocs k b).trans (hblocks k b).symm, fun b hb => ?_, ?_⟩, fun k b hdoc => ?_⟩
  · rw [hfreeBlock] at hb
    obtain ⟨k, hk⟩ := hfree b hb
    exact ⟨k, (hblocks k b).mpr hk⟩
  · rw [hsuccess, hlen]
    rfl
  · exact hkv k b ((hdocs k b).mp hdoc)

theorem LayerInv.add (h : LayerInv layer) (hidx : layer.docsTable.get? idx = none)
    (hblock : layer.blocksMap.get? block = none) : LayerInv (layer.add idx block) := by
  refine ⟨h.inverse.insert hidx hblock, fun b hb => ?_, h.length⟩
  unfold Layer.add
  dsimp only
  rw [get?_insert_eq]
  by_cases heq : b = block
  · exact ⟨idx, by rw [heq, update_self]⟩
  · rw [update_of_ne heq]
    exact h.free b hb

theorem Layer.Held.add (h : layer.Held) (hinv : Inverse layer.docsTable.get? layer.blocksMap.get?)
    (hblock : layer.blocksMap.get? block = none) : (layer.add idx block).Held := by
  intro k b hdoc
  have hget : (layer.add idx block).docsTable.get? = _ := get?_insert_eq layer.docsTable idx block
  rw [hget] at hdoc
  show update layer.kv block (some idx) b = some k
  by_cases hk : k = idx
  · subst hk
    rw [update_self, Option.some.injEq] at hdoc
    rw [← hdoc, update_self]
  · rw [update_of_ne hk] at hdoc
    have hne : b ≠ block := by
      rintro rfl
      rw [(hinv k b).mp hdoc] at hblock
      cases hblock
    rw [update_of_ne hne]
    exact h k b hdoc

theorem step_cases (h : step s e = some s') :
    (∃ (pairs : Fin cfg.layerNum → List (Nat × Nat)) (free : Fin cfg.layerNum → List Nat), ∀ i,
      s'.layers i = .set (pairs i) (free i) ∧ OneToOne (pairs i) ∧
      ∀ b ∈ free i, ∃ k, (k, b) ∈ pairs i) ∨
    (∃ idx block, ∀ i, s'.layers i = (s.layers i).add idx block ∧
      (s.layers i).docsTable.get? idx = none ∧ (s.layers i).blocksMap.get? block = none) ∨
    ∃ topkLen topk outcome, e = .runOneBsPrefetch topkLen topk outcome ∧ ∀ i, (topk i).Nodup ∧
      s'.layers i =
        (s.layers i).runOneBsPrefetch cfg s.promptLen topkLen (topk i) (outcome i) := by
  cases e with
  | setBlocksMap blockTableList prefetchIdx remainIdx blocksHash maxIdx =>
    simp only [step] at h
    split_ifs at h with hok
    cases h
    refine .inl ⟨_, _, fun _ => ⟨rfl, hok.2, fun b hb => ?_⟩⟩
    obtain ⟨idx, hidx, rfl⟩ := List.mem_map.mp hb
    exact ⟨idx, List.mem_map.mpr ⟨idx, List.mem_append_left _ hidx, rfl⟩⟩
  | setBlocksMapMultiLayer remainMap prefetchMap blocksHash maxIdx =>
    simp only [step] at h
    split_ifs at h with hok
    cases h
    refine .inl ⟨_, _, fun i => ⟨rfl, hok i, fun b hb => ?_⟩⟩
    obtain ⟨p, hp, rfl⟩ := List.mem_map.mp hb
    exact ⟨p.1, List.mem_append_right _ hp⟩
  | addBlocksMap idx block =>
    simp only [step] at h
    split_ifs at h with hok
    cases h
    exact .inr (.inl ⟨idx, block, fun i => ⟨rfl, hok i⟩⟩)
  | runOneBsPrefetch topkLen topk outcome =>
    simp only [step] at h
    split_ifs at h with hok
    cases h
    exact .inr (.inr ⟨topkLen, topk, outcome, rfl, fun i => ⟨(hok i).2.1, rfl⟩⟩)

theorem layerInv_step (hinv : ∀ i, LayerInv (s.layers i)) (h : step s e = some s') :
    ∀ i, LayerInv (s'.layers i) := by
  intro i
  obtain ⟨pairs, free, hset⟩ | ⟨idx, block, hadd⟩ | ⟨topkLen, topk, outcome, -, hrun⟩ := step_cases h
  · obtain ⟨heq, hpairs, hfree⟩ := hset i
    rw [heq]
    exact (LayerInv.set hpairs hfree).1
  · obtain ⟨heq, hidx, hblock⟩ := hadd i
    rw [heq]
    exact (hinv i).add hidx hblock
  · rw [(hrun i).2]
    exact (hinv i).runOneBsPrefetch (hrun i).1

theorem held_step (hdirect : cfg.isPythonLoad = false) (hinv : ∀ i, LayerInv (s.layers i))
    (hheld : ∀ i, (s.layers i).Held) (hcond : AllLoaded s e) (h : step s e = some s') :
    ∀ i, (s'.layers i).Held := by
  intro i
  obtain ⟨pairs, free, hset⟩ | ⟨idx, block, hadd⟩ | ⟨topkLen, topk, outcome, rfl, hrun⟩ :=
    step_cases h
  · obtain ⟨heq, hpairs, hfree⟩ := hset i
    rw [heq]
    exact (LayerInv.set hpairs hfree).2
  · obtain ⟨heq, -, hblock⟩ := hadd i
    rw [heq]
    exact (hheld i).add (hinv i).inverse hblock
  · rw [(hrun i).2]
    exact (runOneBsPrefetch_truthful hdirect (hinv i) (hheld i) (hrun i).1 (hcond i)).1

theorem layerInv_start (i : Fin cfg.layerNum) : LayerInv ((State.start cfg).layers i) :=
  ⟨fun _ _ => ⟨nofun, nofun⟩, nofun, rfl⟩

theorem layerInv_reach (h : (machine cfg).Reachable s) : ∀ i, LayerInv (s.layers i) := by
  refine h.inv (I := fun s => ∀ i, LayerInv (s.layers i)) ?_ fun s e s' hinv _ hstep =>
    layerInv_step hinv hstep
  rintro s rfl
  exact layerInv_start

theorem held_reach (hdirect : cfg.isPythonLoad = false) (h : (machine cfg).Reach AllLoaded s) :
    (∀ i, LayerInv (s.layers i)) ∧ ∀ i, (s.layers i).Held := by
  refine h.inv (I := fun s => (∀ i, LayerInv (s.layers i)) ∧ ∀ i, (s.layers i).Held) ?_
    fun s e s' hinv hcond hstep =>
      ⟨layerInv_step hinv.1 hstep, held_step hdirect hinv.1 hinv.2 hcond hstep⟩
  rintro s rfl
  exact ⟨layerInv_start, fun _ _ _ => nofun⟩

/-- **Prefetch reports loaded blocks.** In every run the maps of a layer are inverse to each other and
`mSuccessTableLen` is the number of entries of the success table; and when every load succeeds, what each
call reports is so. -/
theorem prefetch_reports_loaded (hdirect : cfg.isPythonLoad = false) :
    (∀ s, (machine cfg).Reachable s → ∀ i,
      Inverse (s.layers i).docsTable.get? (s.layers i).blocksMap.get? ∧
      (s.layers i).successTableLen = (s.layers i).loadSuccessBlocks.length) ∧
    ∀ s topkLen topk outcome s', (machine cfg).Reach AllLoaded s →
      AllLoaded s (.runOneBsPrefetch topkLen topk outcome) →
      (machine cfg).step s (.runOneBsPrefetch topkLen topk outcome) = some s' →
      ∀ i, (s'.layers i).Truthful (topk i) := by
  refine ⟨fun s hs i => ⟨(layerInv_reach hs i).inverse, (layerInv_reach hs i).length⟩, ?_⟩
  intro s topkLen topk outcome s' hs hcond hstep i
  obtain ⟨hinv, hheld⟩ := held_reach hdirect hs
  simp only [machine, step] at hstep
  split_ifs at hstep with hok
  cases hstep
  exact (runOneBsPrefetch_truthful hdirect (hinv i) (hheld i) (hok i).2.1 (hcond i)).2

/-! ## Calls -/

/-- One layer, and no index of the top-k is spare. -/
def Config.oneLayer : Config := ⟨1, 0, false⟩

/-- The only layer. -/
def State.only (s : State .oneLayer) : Layer := s.layers ⟨0, Nat.one_pos⟩

/-- Of three blocks the request keeps the first, and the second may be reused. -/
def threeBlocks : Event .oneLayer := .setBlocksMap [10, 11, 12] [1] [0] ["a", "b", "c"] 3

/-- The first and the third index are asked for. -/
def firstAndThird (outcome : Load) : Event .oneLayer :=
  .runOneBsPrefetch 2 (fun _ => [0, 2]) fun _ _ => outcome

/-- The third index is loaded over the second. -/
theorem prefetch_reports_loaded_third : ∃ s s' : State .oneLayer,
    (machine .oneLayer).Reach AllLoaded s ∧
    (machine .oneLayer).step s (firstAndThird .success) = some s' ∧
    s'.only.loadSuccessBlocks = [(0, 10), (2, 11)] ∧ s'.only.Truthful [0, 2] := by
  obtain ⟨s, hs⟩ := Option.isSome_iff_exists.mp
    (by decide : ((machine .oneLayer).step (.start .oneLayer) threeBlocks).isSome)
  have hs' : (((machine .oneLayer).step (.start .oneLayer) threeBlocks).bind fun s =>
      ((machine .oneLayer).step s (firstAndThird .success)).map fun s' =>
        s'.only.loadSuccessBlocks) = some [(0, 10), (2, 11)] := by decide +kernel
  rw [hs, Option.bind_some] at hs'
  obtain ⟨s', hs', htable⟩ := Option.map_eq_some_iff.mp hs'
  have hset : AllLoaded (.start .oneLayer) threeBlocks := trivial
  have hreach : (machine .oneLayer).Reach AllLoaded s := .step (.init rfl) hset hs
  exact ⟨s, s', hreach, hs', htable,
    (prefetch_reports_loaded rfl).2 s 2 _ _ s' hreach (fun _ _ _ => rfl) hs' _⟩

/-- The load of the third index fails: its block is in the success table, holds no KV of it, and is in
the free list. -/
theorem prefetch_reports_failed : ∃ s s' : State .oneLayer,
    (machine .oneLayer).Reachable s ∧
    (machine .oneLayer).step s (firstAndThird .failure) = some s' ∧
    (2, 11) ∈ s'.only.loadSuccessBlocks ∧ s'.only.kv 11 ≠ some 2 ∧
    11 ∈ s'.only.freeBlock := by
  obtain ⟨s, hs⟩ := Option.isSome_iff_exists.mp
    (by decide : ((machine .oneLayer).step (.start .oneLayer) threeBlocks).isSome)
  have hs' : (((machine .oneLayer).step (.start .oneLayer) threeBlocks).bind fun s =>
      ((machine .oneLayer).step s (firstAndThird .failure)).map fun s' =>
        decide ((2, 11) ∈ s'.only.loadSuccessBlocks ∧ s'.only.kv 11 ≠ some 2 ∧
          11 ∈ s'.only.freeBlock)) = some true := by decide +kernel
  rw [hs, Option.bind_some] at hs'
  obtain ⟨s', hs', htable⟩ := Option.map_eq_some_iff.mp hs'
  exact ⟨s, s', .step (.init rfl) trivial hs, hs', of_decide_eq_true htable⟩

end UnifiedCache.Gsa.Prefetch
