import UnifiedCache.Kvstar.Proofs.RetrievalProofs
import UnifiedCache.Lib.SwapArea

/-!
# The swap area of KVStar

`load_retrieve_result_async` makes a round of the swap area, and `wait_for_blk_transfer_task_done` puts
the contents in place.
-/

open Lib Lib.BlockCache Lib.Pairing Lib.SwapArea

namespace UnifiedCache.Kvstar

variable {Q η β : Type} {cfg : Config} {outside : Outside Q η β} {s s' : State Q η β}
  {blocks : List Nat} {hashes : List η} {pre : List (Nat × η)} {loadStep n k : Nat}

/-! ## The loop over the swap area -/

/-- What the loop has got, before the blocks that are to come. -/
structure Matching.Inv (pre : List (Nat × η)) (blocks : List Nat) (hashes : List η)
    (acc : Matching η) (rest : List Nat) : Prop where
  matched : acc.alreadyMatchedRecord ⊆ pre
  rest : rest ⊆ acc.candidateSwapVllmBlockIds
  places : (acc.alreadyMatchedRecord.map Prod.fst ++ acc.candidateSwapVllmBlockIds).Perm blocks
  values : (acc.alreadyMatchedRecord.map Prod.snd ++ acc.retrieveResultHashList).Perm hashes

theorem matchBlock_spec [DecidableEq η] (hfst : (pre.map Prod.fst).Nodup)
    (hsnd : (pre.map Prod.snd).Nodup) (hblocks : blocks.Nodup) {acc : Matching η} {id : Nat}
    {rest : List Nat} (hrest : (id :: rest).Nodup) (h : acc.Inv pre blocks hashes (id :: rest)) :
    ∃ acc', matchBlock pre acc id = some acc' ∧
      (∀ p, p ∈ acc'.alreadyMatchedRecord ↔
        p ∈ acc.alreadyMatchedRecord ∨ p ∈ pre ∧ p.1 = id ∧ p.2 ∈ hashes) ∧
      acc'.Inv pre blocks hashes rest := by
  obtain ⟨hmatched, hsub, hplaces, hvalues⟩ := h
  have hid : id ∈ acc.candidateSwapVllmBlockIds := hsub List.mem_cons_self
  have hnew : id ∉ acc.alreadyMatchedRecord.map Prod.fst := fun hmem =>
    (List.nodup_append.mp (hplaces.nodup_iff.mpr hblocks)).2.2 _ hmem _ hid rfl
  have hinv : acc.Inv pre blocks hashes rest :=
    ⟨hmatched, fun i hi => hsub (List.mem_cons_of_mem _ hi), hplaces, hvalues⟩
  unfold matchBlock
  cases hget : Dict.get? pre id with
  | none =>
    refine ⟨acc, rfl, fun p => ?_, hinv⟩
    refine ⟨.inl, fun hp => hp.resolve_right ?_⟩
    rintro ⟨hpre, rfl, -⟩
    exact Dict.get?_eq_none_iff.mp hget (List.mem_map_of_mem hpre)
  | some hash =>
    have hpair : (id, hash) ∈ pre := (Dict.get?_eq_some_iff hfst).mp hget
    have hunique : ∀ p ∈ pre, p.1 = id → p = (id, hash) := fun p hp heq =>
      List.inj_on_of_nodup_map hfst hp hpair heq
    -- The hash is not in the record, since its block is not.
    have hhash : hash ∉ acc.alreadyMatchedRecord.map Prod.snd := by
      intro hmem
      obtain ⟨p, hp, hsame⟩ := List.mem_map.mp hmem
      obtain rfl := List.inj_on_of_nodup_map hsnd (hmatched hp) hpair hsame
      exact hnew (List.mem_map_of_mem hp)
    show ∃ acc', (if hash ∈ acc.retrieveResultHashList then
      (remove acc.candidateSwapVllmBlockIds id).bind fun candidates =>
        (remove acc.retrieveResultHashList hash).bind fun hashes =>
          some ⟨Dict.set acc.alreadyMatchedRecord id hash, candidates, hashes⟩
      else some acc) = some acc' ∧ _
    by_cases hwanted : hash ∈ acc.retrieveResultHashList
    · rw [if_pos hwanted, remove_of_mem hid, remove_of_mem hwanted, Dict.set_of_notMem hnew]
      refine ⟨_, rfl, fun p => ?_, ?_, ?_, ?_, ?_⟩
      · rw [List.mem_append, List.mem_singleton]
        refine or_congr_right ⟨?_, fun ⟨hp, hfst, _⟩ => hunique p hp hfst⟩
        rintro rfl
        exact ⟨hpair, rfl, hvalues.subset (List.mem_append_right _ hwanted)⟩
      · refine List.append_subset.mpr ⟨hmatched, fun p hp => ?_⟩
        rwa [List.mem_singleton.mp hp]
      · intro i hi
        have hne : i ≠ id := fun h => (List.nodup_cons.mp hrest).1 (h ▸ hi)
        exact (List.mem_erase_of_ne hne).mpr (hsub (List.mem_cons_of_mem _ hi))
      · rw [List.map_append, List.append_assoc]
        exact ((List.perm_cons_erase hid).symm.append_left _).trans hplaces
      · rw [List.map_append, List.append_assoc]
        exact ((List.perm_cons_erase hwanted).symm.append_left _).trans hvalues
    · rw [if_neg hwanted]
      refine ⟨acc, rfl, fun p => ?_, hinv⟩
      refine ⟨.inl, fun hp => hp.resolve_right ?_⟩
      rintro ⟨hpre, heq, hmem⟩
      obtain rfl := hunique p hpre heq
      exact (List.mem_append.mp (hvalues.mem_iff.mpr hmem)).elim hhash hwanted

theorem foldlM_matchBlock [DecidableEq η] (hfst : (pre.map Prod.fst).Nodup)
    (hsnd : (pre.map Prod.snd).Nodup) (hblocks : blocks.Nodup) {rest : List Nat}
    {acc : Matching η} (hrest : rest.Nodup) (h : acc.Inv pre blocks hashes rest) :
    ∃ acc', rest.foldlM (matchBlock pre) acc = some acc' ∧
      (∀ p, p ∈ acc'.alreadyMatchedRecord ↔
        p ∈ acc.alreadyMatchedRecord ∨ p ∈ pre ∧ p.1 ∈ rest ∧ p.2 ∈ hashes) ∧
      acc'.Inv pre blocks hashes [] := by
  induction rest generalizing acc with
  | nil =>
    refine ⟨acc, rfl, fun p => ⟨.inl, fun hp => hp.resolve_right ?_⟩, h⟩
    exact fun hp => absurd hp.2.1 List.not_mem_nil
  | cons id rest ih =>
    obtain ⟨acc₁, hstep, hmem₁, h₁⟩ := matchBlock_spec hfst hsnd hblocks hrest h
    obtain ⟨acc₂, hloop, hmem₂, h₂⟩ := ih (List.nodup_cons.mp hrest).2 h₁
    refine ⟨acc₂, ?_, fun p => ?_, h₂⟩
    · rw [List.foldlM_cons, hstep]
      exact hloop
    · rw [hmem₂, hmem₁, List.mem_cons, or_assoc]
      tauto

/-- **The swap area is updated by a round.** -/
theorem updateSwapArea_spec [DecidableEq η] (hfst : (pre.map Prod.fst).Nodup)
    (hsnd : (pre.map Prod.snd).Nodup) (hblocks : blocks.Nodup)
    (hlength : blocks.length = hashes.length) :
    ∃ record toLoad ids, updateSwapArea pre blocks hashes = some (record, toLoad, ids) ∧
      ids.length = toLoad.length ∧ Round blocks hashes pre record (ids.zip toLoad) := by
  unfold updateSwapArea
  by_cases hempty : pre.length = 0
  · obtain rfl := List.length_eq_zero_iff.mp hempty
    have hkeys : ((blocks.zip hashes).map Prod.fst).Nodup := by
      rwa [List.map_fst_zip (Nat.le_of_eq hlength)]
    have hsplit : Split ([] : List (Nat × η)) [] blocks blocks hashes hashes :=
      ⟨fun p => by simp, List.Perm.refl _, List.Perm.refl _⟩
    rw [if_pos hempty, Dict.ofPairs_of_nodup hkeys]
    exact ⟨_, _, _, rfl, hlength, round_of_split hsplit hblocks hlength⟩
  · have hinv : Matching.Inv pre blocks hashes ⟨[], blocks, hashes⟩ blocks :=
      ⟨List.nil_subset _, List.Subset.refl _, List.Perm.refl _, List.Perm.refl _⟩
    obtain ⟨acc, hloop, hmem, -, -, hplaces, hvalues⟩ := foldlM_matchBlock hfst hsnd hblocks hblocks hinv
    have hsplit : Split pre acc.alreadyMatchedRecord blocks acc.candidateSwapVllmBlockIds hashes
        acc.retrieveResultHashList :=
      { mem_kept := fun p => by
          rw [hmem p]
          exact or_iff_right List.not_mem_nil
        places := hplaces
        values := hvalues }
    have hround := round_of_split hsplit hblocks hlength
    rw [if_neg hempty, hloop]
    refine ⟨_, _, _, rfl, hsplit.length_eq hlength, ?_⟩
    rw [Dict.foldl_set_of_nodup (hround.nodup_fst hblocks)]
    exact hround

/-! ## Transfers -/

/-- The end of a round: the record is changed, and what it needs is on its way. -/
def startLoad [DecidableEq η] (s : State Q η β) (record loads : List (Nat × η)) : State Q η β :=
  let s := { s with preSwapAreaBlockHashes := record }
  if loads ≠ [] then launchTransferTask s (loads.map Prod.snd) (loads.map Prod.fst) else s

theorem swapIn_eq [DecidableEq η] (hfst : (s.preSwapAreaBlockHashes.map Prod.fst).Nodup)
    (hsnd : (s.preSwapAreaBlockHashes.map Prod.snd).Nodup) (hblocks : blocks.Nodup)
    (hlength : blocks.length = hashes.length) :
    ∃ record loads, swapIn s blocks hashes = some (startLoad s record loads) ∧
      Round blocks hashes s.preSwapAreaBlockHashes record loads := by
  obtain ⟨record, toLoad, ids, hupdate, heq, hround⟩ := updateSwapArea_spec hfst hsnd hblocks hlength
  refine ⟨record, ids.zip toLoad, ?_, hround⟩
  refine Option.bind_eq_some_iff.mpr ⟨(record, toLoad, ids), hupdate, ?_⟩
  have hempty : 0 < toLoad.length ↔ ids.zip toLoad ≠ [] := by
    rw [← List.length_pos_iff, List.length_zip, heq, Nat.min_self]
  unfold startLoad
  rw [List.map_fst_zip (Nat.le_of_eq heq), List.map_snd_zip (Nat.le_of_eq heq.symm)]
  exact congrArg some (ite_congr (propext hempty) (fun _ => rfl) fun _ => rfl)

/-- **After the wait** the blocks have been written. -/
theorem waitForBlkTransferTaskDone_startLoad [DecidableEq η] (outside : Outside Q η β)
    (record loads : List (Nat × η)) (htasks : s.blkTransTasks = []) :
    waitForBlkTransferTaskDone outside (startLoad s record loads) = { s with
      preSwapAreaBlockHashes := record
      kCache := writeAll s.kCache (loads.map Prod.fst) (loads.map fun p => outside.keyData p.2)
      vCache := writeAll s.vCache (loads.map Prod.fst) (loads.map fun p => outside.valueData p.2) } := by
  unfold waitForBlkTransferTaskDone startLoad
  by_cases hloads : loads = []
  · subst hloads
    simp [htasks]
  · dsimp only
    rw [if_pos hloads]
    unfold launchTransferTask
    simp [htasks, Dict.set, waitTask, List.zip_map', Function.comp_def]

theorem fetchRetrieveResult_swapArea {record : Record}
    (h : fetchRetrieveResult cfg outside s record = some s') :
    s'.preSwapAreaBlockHashes = s.preSwapAreaBlockHashes ∧ s'.blkTransTasks = s.blkTransTasks ∧
      s'.kCache = s.kCache ∧ s'.vCache = s.vCache := by
  unfold fetchRetrieveResult at h
  dsimp only at h
  split_ifs at h with hnone
  · obtain ⟨id, -, h⟩ := Option.bind_eq_some_iff.mp h
    obtain ⟨task, -, h⟩ := Option.bind_eq_some_iff.mp h
    obtain ⟨_, -, h⟩ := Option.bind_eq_some_iff.mp h
    obtain ⟨_, -, h⟩ := Option.bind_eq_some_iff.mp h
    obtain ⟨ids, -, h⟩ := Option.bind_eq_some_iff.mp h
    obtain ⟨hashes, -, h⟩ := Option.bind_eq_some_iff.mp h
    obtain rfl := Option.some.inj h
    exact ⟨rfl, rfl, rfl, rfl⟩
  · obtain rfl := Option.some.inj h
    exact ⟨rfl, rfl, rfl, rfl⟩

/-! ## Rounds -/

/-- The record matches the caches, and nothing is in flight. -/
structure Settled (outside : Outside Q η β) (s : State Q η β) : Prop where
  nodup_fst : (s.preSwapAreaBlockHashes.map Prod.fst).Nodup
  nodup_snd : (s.preSwapAreaBlockHashes.map Prod.snd).Nodup
  keys : Holds outside.keyData s.preSwapAreaBlockHashes s.kCache
  values : Holds outside.valueData s.preSwapAreaBlockHashes s.vCache
  tasks : s.blkTransTasks = []

/-- What the retrieval has to give for a round over these blocks: a result for the record that is
needed, with as many hashes as there are blocks, and distinct ones. A step up to the end of the second
group loads nothing, unless it is the first. -/
structure Retrieves (cfg : Config) (outside : Outside Q η β) (blocks : List Nat) (loadStep n : Nat)
    (s : State Q η β) : Prop where
  loads : loadStep = 1 ∨ cfg.retrievalStride * 2 < loadStep
  ready : Ready n blocks.length s (needRetrieveRecord cfg loadStep)
  le : blocks.length ≤ n
  hashes : 0 < blocks.length → n + cfg.initWindowSz ≤ s.blockHashes.length
  distinct : ∀ s' hashes, fetchRetrieveResult cfg outside s (needRetrieveRecord cfg loadStep) = some s' →
    s'.stepGroupRetrieveResult (needRetrieveRecord cfg loadStep) = some hashes →
    hashes.Nodup ∧ hashes.length = blocks.length

/-- **A round**: it does not raise, and the record matches the caches after the wait. -/
theorem Settled.round [DecidableEq η] (h : Settled outside s) (hretrieve : RetrieveOk outside)
    (hblocks : blocks.Nodup) (hretrieves : Retrieves cfg outside blocks loadStep n s) :
    ∃ fetched hashes record loads,
      fetchRetrieveResult cfg outside s (needRetrieveRecord cfg loadStep) = some fetched ∧
      fetched.stepGroupRetrieveResult (needRetrieveRecord cfg loadStep) = some hashes ∧
      loadRetrieveResultAsync cfg outside s loadStep blocks = some (startLoad fetched record loads) ∧
      Round blocks hashes s.preSwapAreaBlockHashes record loads ∧
      (waitForBlkTransferTaskDone outside (startLoad fetched record loads)).preSwapAreaBlockHashes =
        record ∧
      Settled outside (waitForBlkTransferTaskDone outside (startLoad fetched record loads)) := by
  obtain ⟨fetched, hashes, -, hfetch, hresult, -, -, -⟩ :=
    fetchRetrieveResult_spec hretrieve hretrieves.le hretrieves.hashes hretrieves.ready
  obtain ⟨hpre, htasks, hkCache, hvCache⟩ := fetchRetrieveResult_swapArea hfetch
  obtain ⟨hdistinct, hlength⟩ := hretrieves.distinct fetched hashes hfetch hresult
  obtain ⟨record, loads, hswap, hround⟩ := swapIn_eq (s := fetched) (hpre ▸ h.nodup_fst)
    (hpre ▸ h.nodup_snd) hblocks hlength.symm
  rw [hpre] at hround
  refine ⟨fetched, hashes, record, loads, hfetch, hresult, ?_, hround, ?_⟩
  · refine Option.bind_eq_some_iff.mpr ⟨fetched, hfetch, ?_⟩
    refine Option.bind_eq_some_iff.mpr ⟨hashes, hresult, ?_⟩
    have hloads : needRetrieveRecord cfg loadStep ≠ .prefill ∨ loadStep = 1 := by
      rcases hretrieves.loads with hone | hlate
      · exact .inr hone
      · left
        unfold needRetrieveRecord
        rw [if_neg (Nat.not_le.mpr hlate)]
        exact Record.noConfusion
    exact (if_pos hloads).trans hswap
  · rw [waitForBlkTransferTaskDone_startLoad outside record loads (htasks.trans h.tasks)]
    refine ⟨rfl, ?_⟩
    exact
      { nodup_fst := hround.nodup_fst hblocks
        nodup_snd := hround.nodup_snd hdistinct
        keys := hround.holds hblocks (hkCache ▸ h.keys)
        values := hround.holds hblocks (hvCache ▸ h.values)
        tasks := htasks.trans h.tasks }

/-- What happens between rounds: the blocks of the record keep their contents. -/
structure Between (s s' : State Q η β) : Prop where
  record : s'.preSwapAreaBlockHashes = s.preSwapAreaBlockHashes
  tasks : s'.blkTransTasks = s.blkTransTasks
  kCache : ∀ p ∈ s.preSwapAreaBlockHashes, s'.kCache p.1 = s.kCache p.1
  vCache : ∀ p ∈ s.preSwapAreaBlockHashes, s'.vCache p.1 = s.vCache p.1

theorem Between.settled (h : Between s s') (hs : Settled outside s) : Settled outside s' where
  nodup_fst := h.record ▸ hs.nodup_fst
  nodup_snd := h.record ▸ hs.nodup_snd
  keys := by
    rw [h.record]
    exact hs.keys.congr h.kCache
  values := by
    rw [h.record]
    exact hs.values.congr h.vCache
  tasks := h.tasks.trans hs.tasks

/-- Rounds over these blocks, each with the wait after it. -/
inductive Rounds [DecidableEq η] (cfg : Config) (outside : Outside Q η β) (blocks : List Nat)
    (s₀ : State Q η β) : State Q η β → Prop
  | start : Rounds cfg outside blocks s₀ s₀
  | between {s s' : State Q η β} : Rounds cfg outside blocks s₀ s → Between s s' →
    Rounds cfg outside blocks s₀ s'
  | round {s s' : State Q η β} {loadStep n : Nat} : Rounds cfg outside blocks s₀ s →
    Retrieves cfg outside blocks loadStep n s →
    loadRetrieveResultAsync cfg outside s loadStep blocks = some s' →
    Rounds cfg outside blocks s₀ (waitForBlkTransferTaskDone outside s')

/-- **The record matches the caches after any number of rounds.** -/
theorem Rounds.settled [DecidableEq η] {s₀ : State Q η β} (h : Rounds cfg outside blocks s₀ s)
    (hretrieve : RetrieveOk outside) (hblocks : blocks.Nodup) (hstart : Settled outside s₀) :
    Settled outside s := by
  induction h with
  | start => exact hstart
  | between _ hbetween ih => exact hbetween.settled ih
  | round _ hretrieves hrun ih =>
    obtain ⟨_, _, record, loads, -, -, hrun', -, -, hsettled⟩ := ih.round hretrieve hblocks hretrieves
    obtain rfl := Option.some.inj (hrun'.symm.trans hrun)
    exact hsettled

end UnifiedCache.Kvstar
