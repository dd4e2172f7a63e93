import UnifiedCache.Kvstar.Proofs.WindowProofs

/-!
# Submitting a group and fetching its result

What each of the operations of a decode step does to the groups, and that it does not raise.
-/

open Function Lib

namespace UnifiedCache.Kvstar

variable {Q η β : Type} {cfg : Config} {outside : Outside Q η β} {prompt : Prompt η}
  {queryOf : Nat → Q} {s s' s'' : State Q η β} {m : ReqMeta η} {table : List Nat} {n k : Nat}
  {record : Record}

/-! ## What the steps leave alone -/

/-- The records that may have changed are among `changed`; the rest of what the schedule uses is the
same. -/
structure Frame (changed : Record → Prop) (s s' : State Q η β) : Prop where
  repre : s'.blkRepre = s.blkRepre
  hashes : s'.blockHashes = s.blockHashes
  initWindow : s'.initWindow = s.initWindow
  localWindow : s'.localWindow = s.localWindow
  standby : ∀ r, ¬ changed r → s'.standbyQueryGroup r = s.standbyQueryGroup r
  doRetrieve : ∀ r, ¬ changed r → s'.doRetrieveQueryGroup r = s.doRetrieveQueryGroup r
  result : ∀ r, ¬ changed r → s'.stepGroupRetrieveResult r = s.stepGroupRetrieveResult r
  waiter : ∀ r, ¬ changed r → s'.taskWaiter r = s.taskWaiter r
  tasks : s.retrieveTasks <+: s'.retrieveTasks
  trace : s.trace <+: s'.trace

theorem Frame.trans {changed changed' : Record → Prop} (h : Frame changed s s')
    (h' : Frame changed' s' s'') : Frame (fun r => changed r ∨ changed' r) s s'' where
  repre := h'.repre.trans h.repre
  hashes := h'.hashes.trans h.hashes
  initWindow := h'.initWindow.trans h.initWindow
  localWindow := h'.localWindow.trans h.localWindow
  standby r hr := (h'.standby r (not_or.mp hr).2).trans (h.standby r (not_or.mp hr).1)
  doRetrieve r hr := (h'.doRetrieve r (not_or.mp hr).2).trans (h.doRetrieve r (not_or.mp hr).1)
  result r hr := (h'.result r (not_or.mp hr).2).trans (h.result r (not_or.mp hr).1)
  waiter r hr := (h'.waiter r (not_or.mp hr).2).trans (h.waiter r (not_or.mp hr).1)
  tasks := h.tasks.trans h'.tasks
  trace := h.trace.trans h'.trace

theorem Frame.of_caches (kCache vCache : Nat → β) (pre : List (Nat × η))
    (tasks : List ((List η × Tensor) × List (η × Nat))) :
    Frame (fun _ => False) s { s with
      kCache := kCache
      vCache := vCache
      preSwapAreaBlockHashes := pre
      blkTransTasks := tasks } :=
  ⟨rfl, rfl, rfl, rfl, fun _ _ => rfl, fun _ _ => rfl, fun _ _ => rfl, fun _ _ => rfl,
    List.prefix_rfl, List.prefix_rfl⟩

/-! ## Waiting for results -/

/-- A task has been submitted for a record, and its result has not been fetched. -/
structure Waiting (n k : Nat) (s : State Q η β) (record : Record) (id : Nat)
    (task : RetrieveTask Q) : Prop where
  noResult : s.stepGroupRetrieveResult record = none
  waiter : s.taskWaiter record = some id
  stored : s.retrieveTasks[id]? = some task
  group : task.queryGroup ≠ []
  rows : task.numBlocks = n
  topk : task.topk = k
  standby : (s.standbyQueryGroup record).isSome
  doRetrieve : (s.doRetrieveQueryGroup record).isSome
  submitted : ∃ group, Action.submit record group (some id) ∈ s.trace

/-- A record has been submitted and not been looked up. -/
def Ready (n k : Nat) (s : State Q η β) (record : Record) : Prop :=
  (k = 0 ∧ s.stepGroupRetrieveResult record = some [] ∧
    ∃ group, Action.submit record group none ∈ s.trace) ∨
  (0 < k ∧ ∃ id task, Waiting n k s record id task)

theorem Ready.frame {changed : Record → Prop} (h : Ready n k s record) (hf : Frame changed s s')
    (hr : ¬ changed record) : Ready n k s' record := by
  rcases h with ⟨hk, hresult, group, hmem⟩ | ⟨hk, id, task, h⟩
  · exact .inl ⟨hk, (hf.result _ hr).trans hresult, group, hf.trace.subset hmem⟩
  · refine .inr ⟨hk, id, task, ?_⟩
    obtain ⟨group, hmem⟩ := h.submitted
    have htask := (List.prefix_iff_getElem?.mp hf.tasks) id
    exact
      { noResult := (hf.result _ hr).trans h.noResult
        waiter := (hf.waiter _ hr).trans h.waiter
        stored := by
          obtain ⟨hlt, heq⟩ := List.getElem?_eq_some_iff.mp h.stored
          rw [htask hlt, heq]
        group := h.group
        rows := h.rows
        topk := h.topk
        standby := by
          rw [hf.standby _ hr]
          exact h.standby
        doRetrieve := by
          rw [hf.doRetrieve _ hr]
          exact h.doRetrieve
        submitted := ⟨group, hf.trace.subset hmem⟩ }

/-- **A submission**: the record is ready afterwards. -/
theorem retrievalAsync_spec {curStep : Nat} {group : List (Option Q)}
    (hrecord : getRetrieveRecord cfg curStep = record) (hrepre : s.blkRepre = some n)
    (hgroup : s.standbyQueryGroup record = some group) (hne : group.filterMap id ≠ [])
    (hresult : s.stepGroupRetrieveResult record = none) :
    ∃ s', retrievalAsync cfg s curStep k = some s' ∧ Ready n k s' record ∧
      Frame (· = record) s s' ∧
      s'.trace = s.trace ++ [.submit record (some group)
        (if k = 0 then none else some s.retrieveTasks.length)] ∧
      s'.standbyQueryGroup = s.standbyQueryGroup := by
  unfold retrievalAsync
  rw [hrecord]
  by_cases hk : k = 0
  · rw [if_pos hk, if_pos hk, hgroup]
    refine ⟨_, rfl, .inl ⟨hk, update_self .., some group,
      List.mem_append_right _ (List.mem_singleton_self _)⟩, ?_, rfl, rfl⟩
    · exact ⟨rfl, rfl, rfl, rfl, fun _ _ => rfl, fun _ _ => rfl,
        fun r hr => update_of_ne hr _ _, fun _ _ => rfl, List.prefix_rfl,
        List.prefix_append _ _⟩
  · rw [if_neg hk, if_neg hk, hgroup]
    have hempty : (group.filterMap id).isEmpty = false := by
      rw [← Bool.not_eq_true, List.isEmpty_iff]
      exact hne
    show ∃ s', (if (group.filterMap id).isEmpty = true then none else _) = some s' ∧ _
    rw [hempty, if_neg Bool.false_ne_true, hrepre]
    refine ⟨_, rfl, .inr ⟨Nat.pos_of_ne_zero hk, s.retrieveTasks.length, ⟨group.filterMap id, n, k⟩, ?_⟩,
      ?_, rfl, rfl⟩
    · exact
        { noResult := hresult
          waiter := update_self ..
          stored := by
            show (s.retrieveTasks ++ [_])[s.retrieveTasks.length]? = _
            rw [List.getElem?_concat_length]
          group := hne
          rows := rfl
          topk := rfl
          standby := by
            show (s.standbyQueryGroup record).isSome
            rw [hgroup]
            rfl
          doRetrieve := by
            show (update s.doRetrieveQueryGroup record (some _) record).isSome
            rw [update_self]
            rfl
          submitted := ⟨some group, List.mem_append_right _ (List.mem_singleton_self _)⟩ }
    · exact ⟨hrepre.symm, rfl, rfl, rfl, fun _ _ => rfl, fun r hr => update_of_ne hr _ _,
        fun _ _ => rfl, fun r hr => update_of_ne hr _ _, List.prefix_append _ _,
        List.prefix_append _ _⟩

/-- What the retrieval gives: as many rows of the representation as are wanted. -/
def RetrieveOk (outside : Outside Q η β) : Prop :=
  ∀ task : RetrieveTask Q, task.queryGroup ≠ [] → 0 < task.topk → task.topk ≤ task.numBlocks →
    ∃ ids, outside.retrieve task = some ids ∧ ids.length = task.topk ∧ ∀ i ∈ ids, i < task.numBlocks

theorem mapM_getElem?_isSome {α : Type} {l : List α} {ids : List Nat}
    (h : ∀ i ∈ ids, i < l.length) : ∃ xs, ids.mapM (fun i => l[i]?) = some xs := by
  induction ids with
  | nil => exact ⟨[], rfl⟩
  | cons i ids ih =>
    obtain ⟨xs, hxs⟩ := ih fun j hj => h j (List.mem_cons_of_mem _ hj)
    have hi := h i List.mem_cons_self
    refine ⟨l[i] :: xs, ?_⟩
    rw [List.mapM_cons, hxs, List.getElem?_eq_getElem hi]
    rfl

/-- **A result is looked up**: it is fetched if there is a task. -/
theorem fetchRetrieveResult_spec (hretrieve : RetrieveOk outside) (hk : k ≤ n)
    (hhashes : 0 < k → n + cfg.initWindowSz ≤ s.blockHashes.length) (h : Ready n k s record) :
    ∃ s' hashes l, fetchRetrieveResult cfg outside s record = some s' ∧
      s'.stepGroupRetrieveResult record = some hashes ∧ Frame (· = record) s s' ∧
      s'.trace = s.trace ++ .lookUp record :: l ∧
      ((k = 0 ∧ l = []) ∨
        (0 < k ∧ ∃ id group, l = [.fetch record id] ∧
          Action.submit record group (some id) ∈ s.trace)) := by
  rcases h with ⟨hzero, hresult, -⟩ | ⟨hpos, id, task, h⟩
  · refine ⟨_, [], [], if_neg ?_, hresult, ?_, rfl, .inl ⟨hzero, rfl⟩⟩
    · show ¬ (s.stepGroupRetrieveResult record).isNone = true
      rw [hresult]
      exact Bool.false_ne_true
    · exact ⟨rfl, rfl, rfl, rfl, fun _ _ => rfl, fun _ _ => rfl, fun _ _ => rfl, fun _ _ => rfl,
        List.prefix_rfl, List.prefix_append _ _⟩
  · obtain ⟨ids, hids, -, hlt⟩ := hretrieve task h.group (by rw [h.topk]; exact hpos)
      (by rw [h.topk, h.rows]; exact hk)
    obtain ⟨standby, hstandby⟩ := Option.isSome_iff_exists.mp h.standby
    obtain ⟨retrieved, hretrieved⟩ := Option.isSome_iff_exists.mp h.doRetrieve
    have hin : ∀ i ∈ ids.map (· + cfg.initWindowSz), i < s.blockHashes.length := by
      intro i hi
      obtain ⟨j, hj, rfl⟩ := List.mem_map.mp hi
      have := hlt j hj
      rw [h.rows] at this
      have := hhashes hpos
      omega
    obtain ⟨hashes, hmap⟩ := mapM_getElem?_isSome hin
    rw [List.mapM_map] at hmap
    obtain ⟨group, hgroup⟩ := h.submitted
    have hnone : (s.stepGroupRetrieveResult record).isNone = true := by
      rw [h.noResult]
      rfl
    have hrun : fetchRetrieveResult cfg outside s record = some { s with
        standbyQueryGroup := update s.standbyQueryGroup record none
        doRetrieveQueryGroup := update s.doRetrieveQueryGroup record none
        stepGroupRetrieveResult :=
          update s.stepGroupRetrieveResult record (some hashes)
        trace := s.trace ++ [.lookUp record] ++ [.fetch record id] } := by
      unfold fetchRetrieveResult
      show (if (s.stepGroupRetrieveResult record).isNone = true then _ else _) = _
      rw [if_pos hnone]
      show (s.taskWaiter record).bind _ = _
      rw [h.waiter, Option.bind_some]
      show (s.retrieveTasks[id]?).bind _ = _
      rw [h.stored, Option.bind_some]
      show (s.standbyQueryGroup record).bind _ = _
      rw [hstandby, Option.bind_some]
      show (s.doRetrieveQueryGroup record).bind _ = _
      rw [hretrieved, Option.bind_some]
      show (outside.retrieve task).bind _ = _
      rw [hids, Option.bind_some]
      show (ids.mapM fun i => s.blockHashes[i + cfg.initWindowSz]?).bind _ = _
      change (ids.mapM fun i => s.blockHashes[i + cfg.initWindowSz]?) = _ at hmap
      rw [hmap]
      rfl
    refine ⟨_, hashes, [.fetch record id], hrun, ?_, ?_, ?_, .inr ⟨hpos, id, group, rfl, hgroup⟩⟩
    · exact update_self ..
    · exact ⟨rfl, rfl, rfl, rfl, fun r hr => update_of_ne hr _ _,
        fun r hr => update_of_ne hr _ _, fun r hr => update_of_ne hr _ _,
        fun _ _ => rfl, List.prefix_rfl, by
          rw [List.append_assoc]
          exact List.prefix_append _ _⟩
    · rw [List.append_assoc]
      rfl

/-! ## Caches and the swap area -/

theorem remove_of_mem {α : Type} [DecidableEq α] {l : List α} {x : α} (h : x ∈ l) :
    remove l x = some (l.erase x) := if_pos h

theorem matchBlock_isSome [DecidableEq η] (pre : List (Nat × η)) {acc : Matching η} {id : Nat}
    (h : id ∈ acc.candidateSwapVllmBlockIds) :
    ∃ acc', matchBlock pre acc id = some acc' ∧
      (acc'.candidateSwapVllmBlockIds = acc.candidateSwapVllmBlockIds ∨
        acc'.candidateSwapVllmBlockIds = acc.candidateSwapVllmBlockIds.erase id) := by
  unfold matchBlock
  cases Dict.get? pre id with
  | none => exact ⟨acc, rfl, .inl rfl⟩
  | some hash =>
    by_cases hmem : hash ∈ acc.retrieveResultHashList
    · show ∃ acc', (if hash ∈ acc.retrieveResultHashList then
        (remove acc.candidateSwapVllmBlockIds id).bind fun candidates =>
          (remove acc.retrieveResultHashList hash).bind _ else _) = some acc' ∧ _
      rw [if_pos hmem, remove_of_mem h, remove_of_mem hmem]
      exact ⟨_, rfl, .inr rfl⟩
    · refine ⟨acc, if_neg hmem, .inl rfl⟩

theorem foldlM_matchBlock_isSome [DecidableEq η] (pre : List (Nat × η)) {ids : List Nat}
    {acc : Matching η} (h : ∀ x, ids.count x ≤ acc.candidateSwapVllmBlockIds.count x) :
    ∃ acc', ids.foldlM (matchBlock pre) acc = some acc' := by
  induction ids generalizing acc with
  | nil => exact ⟨acc, rfl⟩
  | cons id ids ih =>
    have hmem : id ∈ acc.candidateSwapVllmBlockIds := by
      have := h id
      rw [List.count_cons_self] at this
      exact List.count_pos_iff.mp (by omega)
    obtain ⟨acc', hstep, hcases⟩ := matchBlock_isSome pre hmem
    have hcount : ∀ x, ids.count x ≤ acc'.candidateSwapVllmBlockIds.count x := by
      intro x
      have hx := h x
      rw [List.count_cons] at hx
      rcases hcases with heq | heq
      · rw [heq]
        omega
      · rw [heq, List.count_erase]
        omega
    rw [List.foldlM_cons, hstep]
    exact ih hcount

theorem updateSwapArea_isSome [DecidableEq η] (pre : List (Nat × η)) (candidates : List Nat)
    (hashes : List η) : ∃ r, updateSwapArea pre candidates hashes = some r := by
  unfold updateSwapArea
  split_ifs with hpre
  · exact ⟨_, rfl⟩
  · obtain ⟨acc, hacc⟩ : ∃ acc, candidates.foldlM (matchBlock pre) ⟨[], candidates, hashes⟩ =
      some acc := foldlM_matchBlock_isSome pre fun _ => Nat.le_refl _
    rw [hacc]
    exact ⟨_, rfl⟩

theorem swapIn_spec [DecidableEq η] (candidates : List Nat) (hashes : List η) :
    ∃ s', swapIn s candidates hashes = some s' ∧ Frame (fun _ => False) s s' ∧ s'.trace = s.trace := by
  obtain ⟨⟨record, toLoad, ids⟩, hr⟩ := updateSwapArea_isSome s.preSwapAreaBlockHashes candidates hashes
  unfold swapIn
  rw [hr]
  show ∃ s', some (if 0 < toLoad.length then _ else _) = some s' ∧ _
  split_ifs with hload
  · exact ⟨_, rfl, Frame.of_caches s.kCache s.vCache record _, rfl⟩
  · exact ⟨_, rfl, Frame.of_caches s.kCache s.vCache record s.blkTransTasks, rfl⟩

theorem foldl_waitTask_eq (outside : Outside Q η β) (s : State Q η β)
    (tasks : List ((List η × Tensor) × List (η × Nat))) :
    ∃ kCache vCache, tasks.foldl (waitTask outside) s = { s with kCache, vCache } := by
  induction tasks generalizing s with
  | nil => exact ⟨s.kCache, s.vCache, rfl⟩
  | cons task tasks ih =>
    obtain ⟨kCache, vCache, heq⟩ := ih (waitTask outside s task)
    refine ⟨kCache, vCache, ?_⟩
    rw [List.foldl_cons, heq]
    unfold waitTask
    split <;> rfl

theorem waitForBlkTransferTaskDone_spec (outside : Outside Q η β) (s : State Q η β) :
    Frame (fun _ => False) s (waitForBlkTransferTaskDone outside s) ∧
      (waitForBlkTransferTaskDone outside s).trace = s.trace := by
  obtain ⟨kCache, vCache, heq⟩ := foldl_waitTask_eq outside s s.blkTransTasks
  unfold waitForBlkTransferTaskDone
  rw [heq]
  exact ⟨Frame.of_caches kCache vCache s.preSwapAreaBlockHashes [], rfl⟩

theorem prepareInitAndLocalWindow_spec (h : prepareInitAndLocalWindow cfg s m = some s') :
    Frame (fun _ => False) s s' ∧ s'.trace = s.trace := by
  unfold prepareInitAndLocalWindow at h
  obtain ⟨init, -, h⟩ := Option.bind_eq_some_iff.mp h
  obtain ⟨kCache, -, h⟩ := Option.bind_eq_some_iff.mp h
  obtain ⟨vCache, -, h⟩ := Option.bind_eq_some_iff.mp h
  cases hloc : s.localWindow with
  | none =>
    rw [hloc] at h
    obtain rfl := Option.some.inj h
    rw [← hloc]
    exact ⟨Frame.of_caches kCache vCache s.preSwapAreaBlockHashes s.blkTransTasks, rfl⟩
  | some loc =>
    rw [hloc] at h
    obtain ⟨kCache', -, h⟩ := Option.bind_eq_some_iff.mp h
    obtain ⟨vCache', -, h⟩ := Option.bind_eq_some_iff.mp h
    obtain rfl := Option.some.inj h
    rw [← hloc]
    exact ⟨Frame.of_caches kCache' vCache' s.preSwapAreaBlockHashes s.blkTransTasks, rfl⟩

end UnifiedCache.Kvstar
