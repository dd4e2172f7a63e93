import UnifiedCache.Cache.Dones
import UnifiedCache.Cache.Proofs.CompletionProofs
import UnifiedCache.Cache.Proofs.DumpPinsProofs

/-!
# Proofs: every task is done once

The queues owe every task they have accepted one call of `Done`: `owed` lists these tasks, and a step
takes exactly the task off the list whose `Done` it calls (`ProcStep.owed`). So the calls made and the
calls owed add up to one for every submitted task. That nothing of a task is left when its `Done` is
called is the pipeline of loads (`LoadInv`) and the copies of dumps (`CopiesHeld`).
-/

open Function Lib

namespace UnifiedCache.Cache

variable {cfg : Config} {env : Env} {buf buf' : TransBuffer} {q q' : Proc} {act : Action}

/-! ## What the queues owe -/

/-- The task for which the dispatcher, or a shard it is going to push, has to call `Done`. -/
def DispatchPc.owed : DispatchPc → List Nat
  | .check task | .skip task | .ready task _ _ _ | .submit task _ _ _ | .failInsert task _
  | .failDone task _ | .push task _ _ => [task.id]
  | .get task rest => if rest.isEmpty then [] else [task.id]
  | .idle | .failDrop _ => []

/-- The tasks of the shards that carry a waiter. -/
def ShardTask.waiters (l : List ShardTask) : List Nat :=
  (l.filter ShardTask.waiter).map ShardTask.taskHandle

def LoadQueue.owed (l : LoadQueue) : List Nat :=
  l.waiting.map TransTask.id ++ l.dispatch.owed ++ ShardTask.waiters (l.transfer.shards ++ l.running)

def DumpQueue.owed (d : DumpQueue) : List Nat :=
  d.waiting.map TransTask.id ++ d.dispatch.task.toList.map TransTask.id

/-- How many calls of `Done` for the task are still to come. -/
def Proc.owed (q : Proc) (id : Nat) : Nat := q.load.owed.count id + q.dump.owed.count id

/-- The last shard the dispatcher pushes carries the waiter. -/
def DispatchPc.PushOk : DispatchPc → Prop
  | .push task st rest => st.taskHandle = task.id ∧ st.waiter = rest.isEmpty
  | _ => True

/-- One call of `Done` for `d`, if for anything. -/
def calls (d : Option Nat) (id : Nat) : Nat := if d = some id then 1 else 0

/-- What a step does to the calls that are owed and to the latches, `Done` being called for `d`. -/
structure OwedStep (d : Option Nat) (q q' : Proc) : Prop where
  owed : ∀ id, q.owed id = q'.owed id + calls d id
  latch : ∀ id, q'.tasks.latch id = q.tasks.latch id - calls d id
  nextId : q'.tasks.nextId = q.tasks.nextId
  submitted : q'.tasks.submitted = q.tasks.submitted

theorem OwedStep.of_load {d : Option Nat} (hdump : q'.dump = q.dump)
    (howed : ∀ id, q.load.owed.count id = q'.load.owed.count id + calls d id)
    (hlatch : ∀ id, q'.tasks.latch id = q.tasks.latch id - calls d id)
    (hnext : q'.tasks.nextId = q.tasks.nextId)
    (hsub : q'.tasks.submitted = q.tasks.submitted) : OwedStep d q q' := by
  refine ⟨fun id => ?_, hlatch, hnext, hsub⟩
  have := howed id
  unfold Proc.owed
  rw [hdump]
  omega

theorem OwedStep.of_perm (hdump : q'.dump = q.dump) (htasks : Tasks.After none q.tasks q'.tasks)
    (howed : q.load.owed.Perm q'.load.owed) : OwedStep none q q' := by
  refine .of_load hdump (fun id => howed.count_eq id) (fun id => ?_) htasks.nextId htasks.submitted
  rw [htasks.latch]
  rfl

theorem OwedStep.of_done {id : Nat} (hdump : q'.dump = q.dump) (htasks : q'.tasks = q.tasks.done id)
    (howed : q.load.owed.Perm (id :: q'.load.owed)) : OwedStep (some id) q q' := by
  refine .of_load hdump (fun id' => ?_) (fun id' => ?_) (by rw [htasks]; rfl) (by rw [htasks]; rfl)
  · rw [howed.count_eq, List.count_cons]
    simp only [calls, Option.some.injEq, beq_iff_eq]
  · rw [htasks]
    show update q.tasks.latch id (q.tasks.latch id - 1) id' = _
    by_cases hid : id' = id
    · subst hid
      simp [calls]
    · have hne : ¬id = id' := fun h => hid h.symm
      simp [calls, update_of_ne hid, hne]

theorem waiters_append (l l' : List ShardTask) :
    ShardTask.waiters (l ++ l') = ShardTask.waiters l ++ ShardTask.waiters l' := by
  unfold ShardTask.waiters
  rw [List.filter_append, List.map_append]

theorem waiters_singleton (st : ShardTask) :
    ShardTask.waiters [st] = if st.waiter then [st.taskHandle] else [] := by
  unfold ShardTask.waiters
  cases hw : st.waiter <;> simp [hw]

/-! ## The load queue -/

theorem loadDispatcher_owed (h : q.loadDispatcher cfg env buf = some (buf', q'))
    (hpush : q.load.dispatch.PushOk) (hC : q.LoadHasShards .loadDispatcher) :
    OwedStep (q.doneOf cfg .loadDispatcher) q q' ∧ q'.load.dispatch.PushOk := by
  obtain ⟨tasks, ⟨waiting, dispatch, running, transfer, holder, streamIndex, copies⟩, dump, backend⟩ :=
    q
  cases dispatch with
  | idle =>
    cases waiting with
    | nil => cases h
    | cons task waiting =>
      cases h
      refine ⟨.of_perm rfl (.refl _) ?_, trivial⟩
      simp only [LoadQueue.owed, DispatchPc.owed, List.map_cons, List.append_nil]
      rw [List.append_assoc]
      exact List.perm_middle.symm
  | check task =>
    simp only [Proc.loadDispatcher] at h
    split_ifs at h with hf <;> cases h
    · exact ⟨.of_perm rfl (.refl _) (.refl _), trivial⟩
    · have hdesc : task.desc ≠ [] := hC hf
      refine ⟨.of_perm rfl (.refl _) ?_, trivial⟩
      simp only [LoadQueue.owed, DispatchPc.owed, List.isEmpty_iff, if_neg hdesc]
      exact .refl _
  | skip task | failDone task hd =>
    cases h
    refine ⟨.of_done rfl rfl ?_, trivial⟩
    simp only [LoadQueue.owed, DispatchPc.owed, List.append_nil]
    rw [List.append_assoc]
    exact List.perm_middle
  | get task rest =>
    cases rest with
    | nil =>
      cases h
      exact ⟨.of_perm rfl (.refl _) (.refl _), trivial⟩
    | cons shard rest =>
      rcases loadDispatcher_get rfl h with ⟨-, rfl⟩ | ⟨hd, -, ⟨-, rfl⟩ | ⟨-, rfl⟩⟩
      · exact ⟨.of_perm rfl (.refl _) (.refl _), trivial⟩
      · exact ⟨.of_perm rfl (.refl _) (.refl _), trivial⟩
      · exact ⟨.of_perm rfl (.refl _) (.refl _), rfl, rfl⟩
  | ready task shard rest hd =>
    simp only [Proc.loadDispatcher] at h
    split_ifs at h <;> cases h
    · exact ⟨.of_perm rfl (.refl _) (.refl _), rfl, rfl⟩
    · exact ⟨.of_perm rfl (.refl _) (.refl _), trivial⟩
  | submit task shard rest hd =>
    obtain ⟨-, ⟨-, rfl⟩ | ⟨handle, -, -, rfl⟩⟩ := loadDispatcher_submit rfl h
    · exact ⟨.of_perm rfl (.refl _) (.refl _), trivial⟩
    · exact ⟨.of_perm rfl (.refl _) (.refl _), rfl, rfl⟩
  | failInsert task hd =>
    cases h
    exact ⟨.of_perm rfl (.fail _ _) (.refl _), trivial⟩
  | failDrop hd =>
    cases h
    exact ⟨.of_perm rfl (.refl _) (.refl _), trivial⟩
  | push task st rest =>
    obtain ⟨hid, hw⟩ := hpush
    simp only [Proc.loadDispatcher] at h
    split_ifs at h
    cases h
    refine ⟨.of_perm rfl (.refl _) ?_, trivial⟩
    -- The last shard takes the waiter along.
    simp only [LoadQueue.owed, DispatchPc.owed, waiters_append, waiters_singleton, hid, hw]
    cases rest with
    | nil =>
      simp only [List.isEmpty_nil, if_true, List.append_nil, List.append_assoc]
      refine List.Perm.append_left _ ?_
      rw [← List.append_assoc (ShardTask.waiters transfer.shards)]
      exact List.perm_append_comm
    | cons shard rest => simp

theorem loadTransfer_owed (h : q.loadTransfer cfg env buf = some (buf', q')) :
    OwedStep (q.doneOf cfg .loadTransfer) q q' ∧ q'.load.dispatch = q.load.dispatch := by
  obtain ⟨tasks, ⟨waiting, dispatch, running, transfer, holder, streamIndex, copies⟩, dump, backend⟩ :=
    q
  cases transfer with
  | idle =>
    cases running with
    | nil => cases h
    | cons st running =>
      cases h
      exact ⟨.of_perm rfl (.refl _) (.refl _), rfl⟩
  | check st | poll st | pollFailed st =>
    simp only [Proc.loadTransfer] at h
    split_ifs at h <;> cases h <;> exact ⟨.of_perm rfl (.refl _) (.refl _), rfl⟩
  | waitBackend st =>
    obtain ⟨-, _ | _, q1, -, rfl⟩ := loadTransfer_waitBackend rfl h <;>
      exact ⟨.of_perm rfl (.refl _) (.refl _), rfl⟩
  | markReady st | sync st | drop st =>
    cases h
    exact ⟨.of_perm rfl (.refl _) (.refl _), rfl⟩
  | h2d st =>
    simp only [Proc.loadTransfer] at h
    split_ifs at h with hok hw <;> cases h
    · exact ⟨.of_perm rfl (.refl _) (.refl _), rfl⟩
    · refine ⟨.of_perm rfl (.refl _) ?_, rfl⟩
      -- A shard without the waiter is kept until the next synchronisation.
      simp only [LoadQueue.owed, TransferPc.shards, waiters_append, waiters_singleton, hw]
      exact .refl _
    · exact ⟨.of_perm rfl (.refl _) (.refl _), rfl⟩
  | clear st ok =>
    cases holder with
    | nil => cases ok <;> cases h <;> exact ⟨.of_perm rfl (.refl _) (.refl _), rfl⟩
    | cons held holder =>
      cases h
      exact ⟨.of_perm rfl (.refl _) (.refl _), rfl⟩
  | fail st =>
    cases h
    exact ⟨.of_perm rfl (.fail _ _) (.refl _), rfl⟩
  | done st =>
    cases h
    cases hw : st.waiter with
    | false =>
      refine ⟨?_, rfl⟩
      simp only [Proc.doneOf, hw]
      refine .of_perm rfl (.refl _) ?_
      simp only [LoadQueue.owed, TransferPc.shards, waiters_append, waiters_singleton, hw]
      exact .refl _
    | true =>
      refine ⟨?_, rfl⟩
      simp only [Proc.doneOf, hw, if_true]
      refine .of_done rfl rfl ?_
      simp only [LoadQueue.owed, TransferPc.shards, waiters_append, waiters_singleton, hw, if_true]
      exact List.perm_middle

/-! ## The dump queue -/

theorem dumpDispatcher_owed (h : q.dumpDispatcher cfg env buf = some (buf', q')) :
    OwedStep (q.doneOf cfg .dumpDispatcher) q q' := by
  obtain ⟨hload, hcase⟩ := dumpDispatcher_task h
  cases hcase with
  | pop task waiting hpc hw hw' hpc' ht =>
    have hd : q.doneOf cfg .dumpDispatcher = none := by simp only [Proc.doneOf, hpc]
    rw [hd]
    refine ⟨fun id => ?_, fun id => by rw [ht]; rfl, by rw [ht], by rw [ht]⟩
    have hperm : q.dump.owed.Perm q'.dump.owed := by
      simp only [DumpQueue.owed, hpc, hw, hw', hpc', DumpPc.task, Option.toList_none,
        Option.toList_some, List.map_cons, List.map_nil, List.append_nil]
      exact (List.perm_append_singleton _ _).symm
    unfold Proc.owed
    rw [hload, hperm.count_eq]
    rfl
  | done task hpc hw' hpc' ht =>
    have hd : q.doneOf cfg .dumpDispatcher = some task.id := by simp only [Proc.doneOf, hpc]
    rw [hd]
    refine ⟨fun id => ?_, fun id => ?_, by rw [ht]; rfl, by rw [ht]; rfl⟩
    · unfold Proc.owed
      rw [hload]
      simp only [DumpQueue.owed, hpc, hw', hpc', DumpPc.task, Option.toList_none,
        Option.toList_some, List.map_cons, List.map_nil, List.append_nil, List.count_append,
        List.count_singleton, calls, Option.some.injEq, beq_iff_eq]
      omega
    · rw [ht]
      show update q.tasks.latch task.id (q.tasks.latch task.id - 1) id = _
      by_cases hid : id = task.id
      · subst hid
        simp [calls]
      · have hne : ¬task.id = id := fun h => hid h.symm
        simp [calls, update_of_ne hid, hne]
  | stay task hpc hw' hpc' ht =>
    have hd : q.doneOf cfg .dumpDispatcher = none := by
      simp only [Proc.doneOf]
      split
      · next task' hdone =>
        simp only [Proc.dumpDispatcher, hdone] at h
        cases h
        cases hpc'
      · rfl
    rw [hd]
    refine ⟨fun id => ?_, fun id => by rw [ht.latch]; rfl, ht.nextId, ht.submitted⟩
    unfold Proc.owed
    rw [hload]
    simp only [DumpQueue.owed, hpc, hw', hpc']
    rfl

/-- The copies of the dump queue are those of the task it works on. -/
def CopiesOwned (d : DumpQueue) : Prop :=
  ∀ c ∈ d.copies, ∃ task, d.dispatch.task = some task ∧ c.task = task.id

theorem dumpDispatcher_copies (h : q.dumpDispatcher cfg env buf = some (buf', q')) {c : Copy}
    (hc : c ∈ q'.dump.copies) :
    c ∈ q.dump.copies ∨ ∃ task, q.dump.dispatch.task = some task ∧ c.task = task.id := by
  obtain ⟨tasks, load, ⟨waiting, dispatch, dumping, dumper, fin, streamIndex, copies⟩, backend⟩ := q
  cases dispatch with
  | d2h task shard rest acc hd =>
    have hissue : ∀ c ∈ copies ++ Copy.issue cfg env task.id shard hd.pos streamIndex,
        c ∈ copies ∨ ∃ task', (DumpPc.d2h task shard rest acc hd).task = some task' ∧
          c.task = task'.id := by
      intro c hc
      rcases List.mem_append.mp hc with hc | hc
      · exact .inl hc
      · exact .inr ⟨task, rfl, (mem_issue hc).1⟩
    simp only [Proc.dumpDispatcher] at h
    split_ifs at h <;> cases h <;> exact hissue c hc
  | sync task acc =>
    cases h
    exact .inl (unsynced_subset env copies hc)
  | idle =>
    cases waiting with
    | nil => cases h
    | cons task waiting =>
      cases h
      exact .inl hc
  | get task rest acc =>
    cases rest with
    | nil => cases acc <;> cases h <;> exact .inl hc
    | cons shard rest =>
      rcases dumpDispatcher_get rfl h with ⟨-, rfl⟩ | ⟨hd, -, ⟨-, rfl⟩ | ⟨-, rfl⟩⟩ <;> exact .inl hc
  | markReady task acc todo => cases todo <;> cases h <;> exact .inl hc
  | unwind task handles => cases handles <;> cases h <;> exact .inl hc
  | submit task acc =>
    obtain ⟨-, ⟨-, rfl⟩ | ⟨handle, -, -, -, rfl⟩⟩ := dumpDispatcher_submit rfl h <;> exact .inl hc
  | check task | waitEvent task | ready task shard rest acc hd | push task acc handle =>
    simp only [Proc.dumpDispatcher] at h
    split_ifs at h <;> cases h <;> exact .inl hc
  | skip task rest acc hd | insert task | done task =>
    cases h
    exact .inl hc

theorem dumpDispatcher_copiesOwned (h : q.dumpDispatcher cfg env buf = some (buf', q'))
    (hheld : CopiesHeld cfg q.dump) (hinv : CopiesOwned q.dump) : CopiesOwned q'.dump := by
  intro c hc
  have hold : ∃ task, q.dump.dispatch.task = some task ∧ c.task = task.id := by
    rcases dumpDispatcher_copies h hc with hc | hown
    · exact hinv c hc
    · exact hown
  obtain ⟨task, htask, hid⟩ := hold
  obtain ⟨-, hcase⟩ := dumpDispatcher_task h
  cases hcase with
  | pop task' waiting hpc hw hw' hpc' ht =>
    rw [hpc] at htask
    cases htask
  | done task' hpc hw' hpc' ht =>
    -- Nothing is under way when `DumpOneTask` has returned.
    have hnil := hheld.eq_nil (by rw [hpc]; rfl)
    simp only [Proc.dumpDispatcher, hpc] at h
    cases h
    replace hc : c ∈ q.dump.copies := hc
    rw [hnil] at hc
    cases hc
  | stay task' hpc hw' hpc' ht =>
    rw [hpc] at htask
    cases htask
    exact ⟨_, hpc', hid⟩

/-! ## The invariant -/

/-- The calls of `Done` made for a task and those owed to it add up to one, as do the calls made and
its latch. -/
structure DonesInv (cfg : Config) (q : Proc) (dones : Nat → Nat) : Prop where
  push : q.load.dispatch.PushOk
  held : CopiesHeld cfg q.dump
  owned : CopiesOwned q.dump
  pos : 0 < q.tasks.nextId
  once : ∀ id, 0 < id → id < q.tasks.nextId → q.owed id + dones id = 1
  new : ∀ id, q.tasks.nextId ≤ id → q.owed id + dones id = 0
  latch : ∀ id < q.tasks.nextId, q.tasks.latch id = q.owed id
  submitted : ∀ task ∈ q.tasks.submitted, 0 < task.id ∧ task.id < q.tasks.nextId

variable {dones : Nat → Nat}

theorem DonesInv.step {d : Option Nat} (h : DonesInv cfg q dones) (hstep : OwedStep d q q')
    (hpush : q'.load.dispatch.PushOk) (hheld : CopiesHeld cfg q'.dump)
    (howned : CopiesOwned q'.dump) : DonesInv cfg q' fun id => dones id + calls d id where
  push := hpush
  held := hheld
  owned := howned
  pos := by
    rw [hstep.nextId]
    exact h.pos
  once := by
    intro id hpos hid
    rw [hstep.nextId] at hid
    have hold := h.once id hpos hid
    rw [hstep.owed id] at hold
    omega
  new := by
    intro id hid
    rw [hstep.nextId] at hid
    have hold := h.new id hid
    rw [hstep.owed id] at hold
    omega
  latch := by
    intro id hid
    rw [hstep.nextId] at hid
    rw [hstep.latch id, h.latch id hid, hstep.owed id]
    omega
  submitted := by
    rw [hstep.submitted, hstep.nextId]
    exact h.submitted

theorem DonesInv.newTask (h : DonesInv cfg q dones) {d : Option Nat}
    (hpush : q'.load.dispatch = q.load.dispatch) (hpc : q'.dump.dispatch = q.dump.dispatch)
    (hcopies : q'.dump.copies = q.dump.copies) (hindex : q'.dump.streamIndex = q.dump.streamIndex)
    (howed : ∀ id, q'.owed id + calls d id = q.owed id + calls (some q.tasks.nextId) id)
    (hlatch : ∀ id, q'.tasks.latch id =
      if id = q.tasks.nextId then 1 - calls d id else q.tasks.latch id)
    (hd : ∀ id, id ≠ q.tasks.nextId → calls d id = 0) (hnext : q'.tasks.nextId = q.tasks.nextId + 1)
    {task : TransTask} (hid : task.id = q.tasks.nextId)
    (hsub : q'.tasks.submitted = q.tasks.submitted ++ [task]) :
    DonesInv cfg q' fun id => dones id + calls d id := by
  have hcalls : ∀ id, calls (some q.tasks.nextId) id = if id = q.tasks.nextId then 1 else 0 := by
    intro id
    simp only [calls, Option.some.injEq, eq_comm (a := q.tasks.nextId)]
  refine ⟨?_, h.held.congr (by rw [hpc]) hcopies hindex, ?_, by omega, ?_, ?_, ?_, ?_⟩
  · rw [hpush]
    exact h.push
  · intro c hc
    rw [hcopies] at hc
    rw [hpc]
    exact h.owned c hc
  · intro id hpos hlt
    rw [hnext] at hlt
    have hnew := howed id
    rw [hcalls] at hnew
    by_cases heq : id = q.tasks.nextId
    · have hzero := h.new id (by omega)
      rw [if_pos heq] at hnew
      omega
    · have hold := h.once id hpos (by omega)
      rw [if_neg heq] at hnew
      omega
  · intro id hge
    rw [hnext] at hge
    have hnew := howed id
    have hold := h.new id (by omega)
    rw [hcalls, if_neg (by omega)] at hnew
    omega
  · intro id hlt
    rw [hnext] at hlt
    have hnew := howed id
    rw [hcalls] at hnew
    rw [hlatch id]
    by_cases heq : id = q.tasks.nextId
    · have hzero := h.new id (by omega)
      rw [if_pos heq] at hnew ⊢
      omega
    · have hold := h.latch id (by omega)
      have hnone := hd id heq
      rw [if_neg heq] at hnew ⊢
      omega
  · intro task' hmem
    rw [hsub] at hmem
    rw [hnext]
    rcases List.mem_append.mp hmem with hmem | hmem
    · obtain ⟨hpos, hlt⟩ := h.submitted task' hmem
      exact ⟨hpos, Nat.lt_succ_of_lt hlt⟩
    · rw [List.mem_singleton.mp hmem, hid]
      exact ⟨h.pos, Nat.lt_succ_self _⟩

theorem count_append_id (l : List TransTask) (task : TransTask) (id : Nat) :
    ((l ++ [task]).map TransTask.id).count id =
      (l.map TransTask.id).count id + calls (some task.id) id := by
  rw [List.map_append, List.count_append, List.map_singleton, List.count_singleton]
  simp only [calls, beq_iff_eq, Option.some.injEq]

theorem DonesInv.submit (h : DonesInv cfg q dones) (type : TaskType) (desc : List Shard)
    (prerequisiteHandle : Nat) :
    DonesInv cfg (q.submit cfg type desc prerequisiteHandle) fun id =>
      dones id + calls (q.doneOf cfg (.submit type desc prerequisiteHandle)) id := by
  have hself : ∀ id, update q.tasks.latch q.tasks.nextId 1 id =
      if id = q.tasks.nextId then 1 - calls none id else q.tasks.latch id := by
    intro id
    rw [update_apply]
    rfl
  -- The queue is full: `Submit` itself calls `Done`.
  have hdown : ∀ id, (Tasks.done { q.tasks with
      latch := update q.tasks.latch q.tasks.nextId 1 } q.tasks.nextId).latch id =
      if id = q.tasks.nextId then 1 - calls (some q.tasks.nextId) id else q.tasks.latch id := by
    intro id
    simp only [Tasks.done, update_self, update_idem, update_apply]
    by_cases heq : id = q.tasks.nextId
    · simp [calls, heq]
    · rw [if_neg heq, if_neg heq]
  have hother : ∀ id, id ≠ q.tasks.nextId → calls (some q.tasks.nextId) id = 0 := by
    intro id hid
    simp only [calls, Option.some.injEq, if_neg (Ne.symm hid)]
  unfold Proc.submit Proc.doneOf
  cases type with
  | load =>
    dsimp only
    split_ifs with hroom
    · refine h.newTask rfl rfl rfl rfl (fun id => ?_) hself (fun _ _ => rfl) rfl rfl rfl
      simp only [Proc.owed, LoadQueue.owed, List.count_append, count_append_id]
      show _ + 0 = _
      omega
    · exact h.newTask rfl rfl rfl rfl (fun id => rfl) hdown hother rfl rfl rfl
  | dump =>
    dsimp only
    split_ifs with hroom
    · refine h.newTask rfl rfl rfl rfl (fun id => ?_) hself (fun _ _ => rfl) rfl rfl rfl
      simp only [Proc.owed, DumpQueue.owed, List.count_append, count_append_id]
      show _ + 0 = _
      omega
    · exact h.newTask rfl rfl rfl rfl (fun id => rfl) hdown hother rfl rfl rfl

theorem OwedStep.of_tasks {t : Tasks} (hlatch : t.latch = q.tasks.latch)
    (hnext : t.nextId = q.tasks.nextId) (hsub : t.submitted = q.tasks.submitted) :
    OwedStep none q { q with tasks := t } :=
  ⟨fun _ => rfl, fun id => by rw [hlatch]; rfl, hnext, hsub⟩

theorem ProcStep.donesInv {stored stored' : Finset Key}
    (hstep : ProcStep cfg env buf stored q act buf' stored' q') (h : DonesInv cfg q dones)
    (hshards : q.LoadHasShards act) (hdump : q.DumpFailsSynced cfg env act) :
    DonesInv cfg q' fun id => dones id + calls (q.doneOf cfg act) id := by
  have hwait : ∀ {t : Tasks}, t.latch = q.tasks.latch → t.nextId = q.tasks.nextId →
      t.submitted = q.tasks.submitted →
      DonesInv cfg { q with tasks := t } fun id => dones id + calls none id :=
    fun hlatch hnext hsub => h.step (.of_tasks hlatch hnext hsub) h.push h.held h.owned
  cases hstep with
  | submit type desc ph => exact h.submit type desc ph
  | waitBegin ht =>
    unfold Tasks.waitBegin at ht
    split_ifs at ht
    cases ht
    exact hwait rfl rfl rfl
  | waitTimeout ht =>
    unfold Tasks.waitTimeout at ht
    split_ifs at ht
    cases ht
    exact hwait rfl rfl rfl
  | waitReturn ht =>
    unfold Tasks.waitReturn at ht
    split_ifs at ht
    split at ht <;> cases ht
    · exact hwait rfl rfl rfl
    · exact hwait rfl rfl rfl
  | loadDispatcher hr =>
    obtain ⟨howed, hpush⟩ := loadDispatcher_owed hr h.push hshards
    have hd := (loadDispatcher_tasks hr).1.dump
    exact h.step howed hpush (by rw [hd]; exact h.held) (by rw [hd]; exact h.owned)
  | loadTransfer hr =>
    obtain ⟨howed, hpc⟩ := loadTransfer_owed hr
    have hd := (loadTransfer_tasks hr).1.dump
    exact h.step howed (by rw [hpc]; exact h.push) (by rw [hd]; exact h.held)
      (by rw [hd]; exact h.owned)
  | dumpDispatcher hr =>
    refine h.step (dumpDispatcher_owed hr) ?_ (dumpDispatcher_copiesHeld hr h.held hdump)
      (dumpDispatcher_copiesOwned hr h.held h.owned)
    rw [(dumpDispatcher_task hr).1]
    exact h.push
  | dumper hr =>
    obtain ⟨ht, hload, hw, hpc, hcopies, hindex⟩ := dumper_frame hr
    refine h.step (d := none) ⟨fun id => ?_, fun id => by rw [ht]; rfl, by rw [ht], by rw [ht]⟩
      (by rw [hload]; exact h.push) (h.held.congr (by rw [hpc]) hcopies hindex) ?_
    · simp only [Proc.owed, DumpQueue.owed, hload, hw, hpc]
      rfl
    · intro c hc
      rw [hcopies] at hc
      rw [hpc]
      exact h.owned c hc
  | backendFinish hr =>
    obtain ⟨rfl, -⟩ := backendFinish_eq_some hr
    exact h.step (d := none) ⟨fun _ => rfl, fun _ => rfl, rfl, rfl⟩ h.push h.held h.owned

theorem DonesInv.outstanding (h : DonesInv cfg q dones) {id : Nat} (hid : q.owed id ≠ 0) :
    q.Outstanding id := by
  have hmem : id ∈ q.load.owed ∨ id ∈ q.dump.owed := by
    by_contra hnot
    rw [not_or] at hnot
    have hl := List.count_eq_zero.mpr hnot.1
    have hd := List.count_eq_zero.mpr hnot.2
    exact hid (by unfold Proc.owed; omega)
  rcases hmem with hmem | hmem
  · refine .inl ?_
    simp only [LoadQueue.owed, List.mem_append] at hmem
    rcases hmem with (hmem | hmem) | hmem
    · exact .inl hmem
    · have hpush := h.push
      simp only [Pipeline.Busy, LoadQueue.pipeline]
      cases hpc : q.load.dispatch with
      | check task | skip task | failInsert task hd | failDone task hd =>
        rw [hpc] at hmem
        exact .inr (.inl (congrArg some (List.mem_singleton.mp hmem).symm))
      | ready task shard rest hd | submit task shard rest hd =>
        rw [hpc] at hmem
        exact .inr (.inr (.inl (congrArg some (List.mem_singleton.mp hmem).symm)))
      | get task rest =>
        rw [hpc] at hmem
        simp only [DispatchPc.owed] at hmem
        split_ifs at hmem with hrest
        · cases hmem
        · refine .inr (.inr (.inl ?_))
          simp only [DispatchPc.more, hrest]
          exact congrArg some (List.mem_singleton.mp hmem).symm
      | push task st rest =>
        rw [hpc] at hmem hpush
        rw [List.mem_singleton.mp hmem]
        refine .inr (.inr (.inr (.inl ?_)))
        simp only [DispatchPc.shards, List.map_append, List.mem_append, List.map_cons, List.map_nil,
          ShardTask.piece, hpush.1, List.mem_singleton, or_true]
      | idle | failDrop hd =>
        rw [hpc] at hmem
        cases hmem
    · obtain ⟨st, hst, rfl⟩ := List.mem_map.mp hmem
      have hst' := List.mem_of_mem_filter hst
      refine .inr (.inr (.inr (.inl ?_)))
      simp only [LoadQueue.pipeline, List.map_map, List.mem_map]
      exact ⟨st, List.mem_append_left _ hst', rfl⟩
  · refine .inr (.inl ?_)
    simp only [DumpQueue.owed, List.mem_append, List.mem_map, Option.mem_toList] at hmem
    exact hmem

theorem DonesInv.not_outstanding (h : DonesInv cfg q dones) (hload : LoadInv cfg q) {id : Nat}
    (hlt : id < q.tasks.nextId) (hid : q.owed id = 0) :
    ¬q.Outstanding id := by
  have hdump : ¬q.dump.Busy id := by
    intro hbusy
    have hmem : id ∈ q.dump.owed := by
      simp only [DumpQueue.owed, List.mem_append, List.mem_map, Option.mem_toList]
      exact hbusy
    have := List.count_pos_iff.mpr hmem
    unfold Proc.owed at hid
    omega
  rintro (hbusy | hbusy | ⟨c, hc, rfl⟩)
  · exact hload.zero id (by rw [h.latch id hlt, hid]) hbusy
  · exact hdump hbusy
  · obtain ⟨task, htask, hct⟩ := h.owned c hc
    exact hdump (.inr ⟨task, htask, hct.symm⟩)

/-! ## Runs -/

section Run

variable {n : Nat} {c c' : Counted n} {e : Event n}

/-- The invariant of all processes. -/
structure CountedInv (cfg : Config) (c : Counted n) : Prop where
  load : ∀ p, LoadInv cfg (c.store.procs p)
  dones : ∀ p, DonesInv cfg (c.store.procs p) (c.dones p)

theorem countedInv_init (h : (countedMachine cfg n).init c) : CountedInv cfg c := by
  obtain ⟨hs, hd⟩ := h
  refine ⟨loadInv_reach (.init hs), fun p => ?_⟩
  rw [hs.2 p, hd]
  refine ⟨trivial, copiesHeld_of_nil rfl cfg.stream_pos, nofun, Nat.one_pos, fun id hpos hlt => ?_,
    fun _ _ => rfl, fun _ _ => rfl, nofun⟩
  replace hlt : id < 1 := hlt
  omega

theorem countedInv_step (h : CountedInv cfg c) (hC : DonesInTime cfg c e)
    (hstep : (countedMachine cfg n).step c e = some c') : CountedInv cfg c' := by
  obtain ⟨s', hs, rfl⟩ := Option.map_eq_some_iff.mp hstep
  obtain ⟨hshards, hload, hdump⟩ := hC
  refine ⟨loadInv_step h.load hload hs, fun p => ?_⟩
  obtain ⟨q', hprocs, hps⟩ := step_proc hs
  have hcount : ∀ {p}, p ≠ e.p → c.count cfg e p = c.dones p := by
    intro p hp
    funext id
    simp only [Counted.count, hp, false_and, if_false, Nat.add_zero]
  show DonesInv cfg (s'.procs p) (c.count cfg e p)
  rw [hprocs]
  by_cases hp : p = e.p
  · subst hp
    rw [update_self]
    have hself : c.count cfg e e.p = fun id =>
        c.dones e.p id + calls ((c.store.procs e.p).doneOf cfg e.act) id := by
      funext id
      simp only [Counted.count, calls, true_and]
    rw [hself]
    exact hps.donesInv (h.dones e.p) hshards hdump
  · rw [update_of_ne hp, hcount hp]
    exact h.dones p

/-- **Every task is done once**, in every run in which load tasks have shards and no task fails while
something of it is under way: the latch of a submitted task and the calls of `Done` for it add up to
one, and the call has been made exactly when nothing of the task is outstanding. -/
theorem task_done_once (cfg : Config) (n : Nat) (c : Counted n)
    (h : (countedMachine cfg n).Reach (DonesInTime cfg) c) (p : Fin n) (task : TransTask)
    (ht : task ∈ (c.store.procs p).tasks.submitted) :
    c.dones p task.id + (c.store.procs p).tasks.latch task.id = 1 ∧
      (c.dones p task.id = 1 ↔ ¬(c.store.procs p).Outstanding task.id) := by
  have hinv : CountedInv cfg c :=
    h.inv (fun _ => countedInv_init) fun _ _ _ hi hC hstep => countedInv_step hi hC hstep
  have hd := hinv.dones p
  obtain ⟨hpos, hlt⟩ := hd.submitted task ht
  have honce := hd.once task.id hpos hlt
  have hlatch := hd.latch task.id hlt
  refine ⟨by omega, fun hone => ?_, fun hnot => ?_⟩
  · exact hd.not_outstanding (hinv.load p) hlt (by omega)
  · by_contra hne
    exact hnot (hd.outstanding (by omega))

/-- A load of two shards that succeeds. -/
theorem task_done_once_load :
    ∃ c, (countedMachine .small 1).Reach (DonesInTime .small) c ∧
      ⟨1, .load, [⟨7, 0, [100]⟩, ⟨7, 1, [200]⟩], 0⟩ ∈ (c.store.procs 0).tasks.submitted ∧ c.dones 0 1 = 1 ∧
      ¬(c.store.procs 0).Outstanding 1 := by
  obtain ⟨c, hreach, hp⟩ := Machine.exists_reach_of_run (M := countedMachine .small 1)
    (C := DonesInTime .small) (s := ⟨.start 1 {(7, 0), (7, 1)}, fun _ _ => 0⟩) (l := loadTrace)
    (p := fun c => ⟨1, .load, [⟨7, 0, [100]⟩, ⟨7, 1, [200]⟩],
      0⟩ ∈ (c.store.procs 0).tasks.submitted ∧ c.dones 0 1 = 1) ⟨⟨rfl, fun _ => rfl⟩, rfl⟩
    (by decide +kernel)
  exact ⟨c, hreach, hp.1, hp.2, (task_done_once .small 1 c hreach 0 _ hp.1).2.mp hp.2⟩

/-- A load task without shards: the dispatcher has let go of it, nothing of it is outstanding, and its
latch is still up. -/
theorem task_never_done :
    ∃ c, (countedMachine .small 1).Reachable c ∧
      ⟨1, .load, [], 0⟩ ∈ (c.store.procs 0).tasks.submitted ∧
      ¬(c.store.procs 0).Outstanding 1 ∧ c.dones 0 1 = 0 ∧ (c.store.procs 0).tasks.latch 1 = 1 := by
  obtain ⟨c, hc, hp⟩ := Machine.exists_reachable_of_run (M := countedMachine .small 1)
    (s := ⟨.start 1 ∅, fun _ _ => 0⟩) (l := ⟨proc, .submit .load [] 0, {}⟩ ::
      List.replicate 3 ⟨proc, .loadDispatcher, {}⟩) (p := fun c => ⟨1, .load, [],
      0⟩ ∈ (c.store.procs 0).tasks.submitted ∧ c.dones 0 1 = 0 ∧
      (c.store.procs 0).tasks.latch 1 = 1 ∧ (c.store.procs 0).load.waiting = [] ∧
      (c.store.procs 0).load.dispatch = .idle ∧ (c.store.procs 0).load.transfer = .idle ∧
      (c.store.procs 0).load.running = [] ∧ (c.store.procs 0).load.copies = [] ∧
      (c.store.procs 0).dump.waiting = [] ∧ (c.store.procs 0).dump.dispatch = .idle ∧
      (c.store.procs 0).dump.copies = []) ⟨⟨rfl, fun _ => rfl⟩, rfl⟩ (by decide +kernel)
  obtain ⟨hsub, hdone, hlatch, hw, hd, htr, hr, hcp, hdw, hdd, hdc⟩ := hp
  refine ⟨c, hc, hsub, ?_, hdone, hlatch⟩
  simp [Proc.Outstanding, Pipeline.Busy, LoadQueue.pipeline, hw, hd, htr, hr, hcp, DumpQueue.Busy,
    hdw, hdd, hdc, DispatchPc.fresh, DispatchPc.more, DispatchPc.shards, TransferPc.shards,
    DumpPc.task]

end Run

end UnifiedCache.Cache
