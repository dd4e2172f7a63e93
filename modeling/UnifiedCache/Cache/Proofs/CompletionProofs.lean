import UnifiedCache.Cache.Completion
import UnifiedCache.Cache.Proofs.PinsProofs

/-!
# No copy after `Wait`

The steps of the load queue are steps of its pipeline (`loadDispatcher_pipeline`,
`loadTransfer_pipeline`) as long as no task fails while one of its shards is under way; so a task
whose latch is down has nothing in flight, and `Wait` returns no earlier than that.
-/

open Function Lib

namespace UnifiedCache.Cache

variable {cfg : Config} {env : Env} {buf buf' : TransBuffer} {q q' : Proc}

/-! ## Steps of the pipeline -/

/-- The tasks after a step that has called `Done` for `d`, if for anything. -/
structure Tasks.After (d : Option Nat) (t t' : Tasks) : Prop where
  latch : t'.latch = d.elim t.latch fun id => update t.latch id (t.latch id - 1)
  wait : t'.wait = t.wait
  nextId : t'.nextId = t.nextId
  submitted : t'.submitted = t.submitted
  failureSet : t.failureSet ⊆ t'.failureSet

theorem Tasks.After.refl (t : Tasks) : Tasks.After none t t := ⟨rfl, rfl, rfl, rfl, subset_rfl⟩

theorem Tasks.After.done (t : Tasks) (id : Nat) : Tasks.After (some id) t (t.done id) :=
  ⟨rfl, rfl, rfl, rfl, subset_rfl⟩

theorem Tasks.After.fail (t : Tasks) (id : Nat) : Tasks.After none t (t.fail id) :=
  ⟨rfl, rfl, rfl, rfl, Finset.subset_insert _ _⟩

/-- What the threads of the load queue leave alone. -/
structure LoadStep (q q' : Proc) : Prop where
  step : ∃ d, q.load.pipeline.Step d q'.load.pipeline ∧ Tasks.After d q.tasks q'.tasks
  dump : q'.dump = q.dump

/-- The dispatcher pushes one more shard. -/
theorem pipeline_push (l : LoadQueue) (task : TransTask) (st : ShardTask) (rest : List Shard)
    (hid : st.taskHandle = task.id) (hw : st.waiter = rest.isEmpty)
    (hmore : l.dispatch.more = some task.id) (hfresh : l.dispatch.fresh = none)
    (hsh : l.dispatch.shards = []) :
    l.pipeline.Step none { l with dispatch := .push task st rest }.pipeline := by
  have hl : l.pipeline = ⟨l.waiting.map TransTask.id, none, some task.id,
      (l.transfer.shards ++ l.running).map ShardTask.piece, l.copies.map Copy.task⟩ := by
    unfold LoadQueue.pipeline
    rw [hfresh, hmore, hsh, List.append_nil]
  have hpiece : st.piece = (task.id, rest.isEmpty) := by rw [ShardTask.piece, hid, hw]
  have hstep := Pipeline.Step.push (v := l.pipeline) task.id rest.isEmpty (by rw [hl])
  rw [hl] at hstep ⊢
  rw [← hpiece, ← List.map_singleton, ← List.map_append] at hstep
  exact hstep

/-- A step of the dispatcher is one of the pipeline. -/
theorem loadDispatcher_pipeline (h : q.loadDispatcher cfg env buf = some (buf', q'))
    (hC : ∀ task shard rest hd, q.load.dispatch = .submit task shard rest hd → env.handle = none →
      (∀ st ∈ q.load.transfer.shards ++ q.load.running, st.taskHandle ≠ task.id) ∧
        ∀ c ∈ q.load.copies, c.task ≠ task.id) :
    LoadStep q q' ∧ q'.load.transfer = q.load.transfer ∧ q'.load.copies = q.load.copies ∧
      q'.load.streamIndex = q.load.streamIndex := by
  obtain ⟨tasks, ⟨waiting, dispatch, running, transfer, holder, streamIndex, copies⟩, dump, backend⟩ :=
    q
  cases dispatch with
  | idle =>
    cases waiting with
    | nil => cases h
    | cons task waiting =>
      cases h
      exact ⟨⟨⟨none, .pop task.id (waiting.map TransTask.id) rfl rfl rfl, .refl _⟩, rfl⟩, rfl, rfl, rfl⟩
  | check task =>
    simp only [Proc.loadDispatcher] at h
    split_ifs at h <;> cases h
    · exact ⟨⟨⟨none, .refl _, .refl _⟩, rfl⟩, rfl, rfl, rfl⟩
    · refine ⟨⟨⟨none, .start task.id _ rfl ?_, .refl _⟩, rfl⟩, rfl, rfl, rfl⟩
      simp only [DispatchPc.more]
      split_ifs <;> simp
  | skip task | failDone task hd =>
    cases h
    exact ⟨⟨⟨some task.id, .finish task.id rfl, .done _ _⟩, rfl⟩, rfl, rfl, rfl⟩
  | get task rest =>
    cases rest with
    | nil =>
      cases h
      exact ⟨⟨⟨none, .refl _, .refl _⟩, rfl⟩, rfl, rfl, rfl⟩
    | cons shard rest =>
      rcases loadDispatcher_get rfl h with ⟨-, rfl⟩ | ⟨hd, -, ⟨-, rfl⟩ | ⟨-, rfl⟩⟩
      · exact ⟨⟨⟨none, .refl _, .refl _⟩, rfl⟩, rfl, rfl, rfl⟩
      · exact ⟨⟨⟨none, .refl _, .refl _⟩, rfl⟩, rfl, rfl, rfl⟩
      · exact ⟨⟨⟨none, pipeline_push _ task _ rest rfl rfl rfl rfl rfl, .refl _⟩, rfl⟩, rfl, rfl, rfl⟩
  | ready task shard rest hd =>
    simp only [Proc.loadDispatcher] at h
    split_ifs at h <;> cases h
    · exact ⟨⟨⟨none, pipeline_push _ task _ rest rfl rfl rfl rfl rfl, .refl _⟩, rfl⟩, rfl, rfl, rfl⟩
    · exact ⟨⟨⟨none, .refl _, .refl _⟩, rfl⟩, rfl, rfl, rfl⟩
  | submit task shard rest hd =>
    obtain ⟨-, ⟨henv, rfl⟩ | ⟨handle, -, -, rfl⟩⟩ := loadDispatcher_submit rfl h
    · obtain ⟨hsh, hcp⟩ := hC task shard rest hd rfl henv
      refine ⟨⟨⟨none, .stop task.id rfl ?_ ?_, .refl _⟩, rfl⟩, rfl, rfl, rfl⟩
      · simp only [LoadQueue.pipeline, DispatchPc.shards, List.append_nil, List.map_map,
          List.mem_map, not_exists, not_and]
        exact hsh
      · simp only [LoadQueue.pipeline, List.mem_map, not_exists, not_and]
        exact hcp
    · exact ⟨⟨⟨none, pipeline_push _ task _ rest rfl rfl rfl rfl rfl, .refl _⟩, rfl⟩, rfl, rfl, rfl⟩
  | failInsert task hd =>
    cases h
    exact ⟨⟨⟨none, .refl _, .fail _ _⟩, rfl⟩, rfl, rfl, rfl⟩
  | failDrop hd =>
    cases h
    exact ⟨⟨⟨none, .refl _, .refl _⟩, rfl⟩, rfl, rfl, rfl⟩
  | push task st rest =>
    simp only [Proc.loadDispatcher] at h
    split_ifs at h
    cases h
    refine ⟨⟨⟨none, ?_, .refl _⟩, rfl⟩, rfl, rfl, rfl⟩
    simp only [LoadQueue.pipeline, DispatchPc.fresh, DispatchPc.more, DispatchPc.shards,
      List.append_nil, List.append_assoc]
    exact .refl _

/-- What the transfer thread knows about the copies. -/
structure Synced (cfg : Config) (l : LoadQueue) : Prop where
  /-- No copy of a task is left when its last shard is on its way to `Done`. -/
  finishing : ∀ id, l.transfer.finishing = some id → ∀ c ∈ l.copies, c.task ≠ id
  streams : ∀ c ∈ l.copies, c.stream < cfg.streamNumber
  index : l.streamIndex < cfg.streamNumber

theorem Synced.congr {l l' : LoadQueue} (h : Synced cfg l) (htr : l'.transfer = l.transfer)
    (hcp : l'.copies = l.copies) (hidx : l'.streamIndex = l.streamIndex) : Synced cfg l' :=
  ⟨by rw [htr, hcp]; exact h.finishing, by rw [hcp]; exact h.streams, by rw [hidx]; exact h.index⟩

/-- After `Synchronize` has succeeded nothing is left. -/
theorem unsynced_eq_nil (hok : env.syncOk cfg = true) {copies : List Copy}
    (h : ∀ c ∈ copies, c.stream < cfg.streamNumber) : Copy.unsynced env copies = [] := by
  refine List.filter_eq_nil_iff.mpr fun c hc => ?_
  simp only [Env.syncOk, List.all_eq_true, List.mem_range, decide_eq_true_eq] at hok
  simpa using hok c.stream (h c hc)

theorem unsynced_subset (env : Env) (copies : List Copy) : Copy.unsynced env copies ⊆ copies :=
  List.filter_sublist.subset

/-- The copies of one shard. -/
theorem mem_issue {c : Copy} {task node stream : Nat} {shard : Shard}
    (h : c ∈ Copy.issue cfg env task shard node stream) : c.task = task ∧ c.stream = stream := by
  obtain ⟨addr, -, rfl⟩ := List.mem_map.mp h
  exact ⟨rfl, rfl⟩

/-- The transfer thread issues the copies of its shard, and may be done with it. -/
theorem pipeline_issue (l : LoadQueue) (st : ShardTask) (pc : TransferPc) (cs : List Copy)
    (hpc : l.transfer.shards = [st]) (hpc' : pc.shards = [st] ∨ pc.shards = [])
    (hcs : ∀ c ∈ cs, c.task = st.taskHandle) (holder : List ShardTask) (streamIndex : Nat) :
    l.pipeline.Step none { l with
      transfer := pc, holder := holder, streamIndex := streamIndex
      copies := l.copies ++ cs }.pipeline := by
  have hp : l.pipeline.pieces =
      st.piece :: (l.running ++ l.dispatch.shards).map ShardTask.piece := by
    simp only [LoadQueue.pipeline, hpc]
    rfl
  have hstep := Pipeline.Step.emit (v := l.pipeline) st.taskHandle st.waiter _ (cs.map Copy.task)
    ((pc.shards ++ l.running ++ l.dispatch.shards).map ShardTask.piece) hp
    (fun x hx => by obtain ⟨c, hc, rfl⟩ := List.mem_map.mp hx; exact hcs c hc) ?_
  · simp only [LoadQueue.pipeline, List.map_append] at hstep ⊢
    exact hstep
  · rcases hpc' with h | h
    · exact .inl (by rw [h, hp]; rfl)
    · exact .inr (by rw [h]; rfl)

/-- A step of the transfer thread is one of the pipeline, if no task fails with something under way.
-/
theorem loadTransfer_pipeline (h : q.loadTransfer cfg env buf = some (buf', q'))
    (hs : Synced cfg q.load)
    (hC : ∀ id, q.failsLast cfg env = some id → ∀ c ∈ q.copiesAfter cfg env, c.task ≠ id) :
    LoadStep q q' ∧ Synced cfg q'.load := by
  obtain ⟨hfin, hstr, hidx⟩ := hs
  obtain ⟨tasks, ⟨waiting, dispatch, running, transfer, holder, streamIndex, copies⟩, dump, backend⟩ :=
    q
  have hmod : ∀ n : Nat, n % cfg.streamNumber < cfg.streamNumber :=
    fun n => Nat.mod_lt n cfg.stream_pos
  cases transfer with
  | idle =>
    cases running with
    | nil => cases h
    | cons st running =>
      cases h
      exact ⟨⟨⟨none, .refl _, .refl _⟩, rfl⟩, fun _ h => (by cases h), hstr, hidx⟩
  | check st =>
    simp only [Proc.loadTransfer] at h
    split_ifs at h with hf hb <;> cases h
    · refine ⟨⟨⟨none, .refl _, .refl _⟩, rfl⟩, fun id hid => hC id ?_, hstr, hidx⟩
      simp only [TransferPc.finishing] at hid
      split_ifs at hid with hw
      simpa [Proc.failsLast, hw, hf] using hid
    · exact ⟨⟨⟨none, .refl _, .refl _⟩, rfl⟩, fun _ h => (by cases h), hstr, hidx⟩
    · exact ⟨⟨⟨none, .refl _, .refl _⟩, rfl⟩, fun _ h => (by cases h), hstr, hidx⟩
  | waitBackend st =>
    obtain ⟨-, _ | _, q1, hw, rfl⟩ := loadTransfer_waitBackend rfl h
    · refine ⟨⟨⟨none, .refl _, .refl _⟩, rfl⟩, fun id hid => hC id ?_, hstr, hidx⟩
      simp only [cond_false, TransferPc.finishing] at hid
      split_ifs at hid with hwt
      simpa [Proc.failsLast, hwt, hw] using hid
    · exact ⟨⟨⟨none, .refl _, .refl _⟩, rfl⟩, fun _ h => (by cases h), hstr, hidx⟩
  | markReady st | drop st =>
    cases h
    exact ⟨⟨⟨none, .refl _, .refl _⟩, rfl⟩, fun _ h => (by cases h), hstr, hidx⟩
  | poll st =>
    simp only [Proc.loadTransfer] at h
    split_ifs at h <;> cases h <;>
      exact ⟨⟨⟨none, .refl _, .refl _⟩, rfl⟩, fun _ h => (by cases h), hstr, hidx⟩
  | pollFailed st =>
    simp only [Proc.loadTransfer] at h
    split_ifs at h with hf <;> cases h
    · refine ⟨⟨⟨none, .refl _, .refl _⟩, rfl⟩, fun id hid => hC id ?_, hstr, hidx⟩
      simp only [TransferPc.finishing] at hid
      split_ifs at hid with hw
      simpa [Proc.failsLast, hw, hf] using hid
    · exact ⟨⟨⟨none, .refl _, .refl _⟩, rfl⟩, fun _ h => (by cases h), hstr, hidx⟩
  | h2d st =>
    have hstr' : ∀ c ∈ copies ++
        Copy.issue cfg env st.taskHandle st.shard st.bufferHandle.pos streamIndex,
        c.stream < cfg.streamNumber := by
      intro c hc
      rcases List.mem_append.mp hc with hc | hc
      · exact hstr c hc
      · rw [(mem_issue hc).2]
        exact hidx
    simp only [Proc.loadTransfer] at h
    split_ifs at h with hok hw <;> cases h
    · exact ⟨⟨⟨none, pipeline_issue _ st _ _ rfl (.inl rfl) (fun c hc => (mem_issue hc).1) _ _,
        .refl _⟩, rfl⟩, fun _ h => (by cases h), hstr', hmod _⟩
    · exact ⟨⟨⟨none, pipeline_issue _ st _ _ rfl (.inr rfl) (fun c hc => (mem_issue hc).1) _ _,
        .refl _⟩, rfl⟩, fun _ h => (by cases h), hstr', hmod _⟩
    · refine ⟨⟨⟨none, pipeline_issue _ st _ _ rfl (.inl rfl) (fun c hc => (mem_issue hc).1) _ _,
        .refl _⟩, rfl⟩, fun id hid => hC id ?_, hstr', hmod _⟩
      simp only [TransferPc.finishing] at hid
      split_ifs at hid with hw
      simpa [Proc.failsLast, hw, hok] using hid
  | sync st =>
    cases h
    have hsub := unsynced_subset env copies
    refine ⟨⟨⟨none, .settle _ (List.map_subset _ hsub), .refl _⟩, rfl⟩, fun id hid c hc => ?_,
      fun c hc => hstr c (hsub hc), hidx⟩
    by_cases hok : env.syncOk cfg = true
    · dsimp only at hc
      rw [unsynced_eq_nil hok hstr] at hc
      cases hc
    · refine hC id ?_ c hc
      simp only [TransferPc.finishing] at hid
      split_ifs at hid with hw
      simpa [Proc.failsLast, hok] using hid
  | clear st ok =>
    cases holder with
    | nil =>
      cases ok <;> cases h <;>
        exact ⟨⟨⟨none, .refl _, .refl _⟩, rfl⟩, hfin, hstr, hidx⟩
    | cons held holder =>
      cases h
      exact ⟨⟨⟨none, .refl _, .refl _⟩, rfl⟩, hfin, hstr, hidx⟩
  | fail st =>
    cases h
    exact ⟨⟨⟨none, .refl _, .fail _ _⟩, rfl⟩, hfin, hstr, hidx⟩
  | done st =>
    cases h
    cases hw : st.waiter
    · have hstep := pipeline_issue ⟨waiting, dispatch, running, .done st, holder, streamIndex, copies⟩
        st (.drop st) [] rfl (.inr rfl) (fun c hc => absurd hc List.not_mem_nil) holder streamIndex
      rw [List.append_nil] at hstep
      exact ⟨⟨⟨none, hstep, .refl _⟩, rfl⟩, fun _ h => (by cases h), hstr, hidx⟩
    · refine ⟨⟨⟨some st.taskHandle, .complete st.taskHandle
        ((running ++ dispatch.shards).map ShardTask.piece) ?_ ?_, .done _ _⟩, rfl⟩,
        fun _ h => (by cases h), hstr, hidx⟩
      · simp [LoadQueue.pipeline, TransferPc.shards, ShardTask.piece, hw]
      · intro hmem
        obtain ⟨c, hc, hct⟩ := List.mem_map.mp hmem
        exact hfin st.taskHandle (by simp [TransferPc.finishing, hw]) c hc hct

/-! ## The dump queue does not interfere -/

/-- What a step of the dump dispatcher does to the tasks: it takes one, is done with one, or works on
one. -/
inductive DumpTaskStep (q q' : Proc) : Prop where
  | pop (task : TransTask) (waiting : List TransTask) (hpc : q.dump.dispatch = .idle)
      (hw : q.dump.waiting = task :: waiting) (hw' : q'.dump.waiting = waiting)
      (hpc' : q'.dump.dispatch = .check task) (ht : q'.tasks = q.tasks)
  | done (task : TransTask) (hpc : q.dump.dispatch = .done task)
      (hw' : q'.dump.waiting = q.dump.waiting) (hpc' : q'.dump.dispatch = .idle)
      (ht : q'.tasks = q.tasks.done task.id)
  | stay (task : TransTask) (hpc : q.dump.dispatch.task = some task)
      (hw' : q'.dump.waiting = q.dump.waiting) (hpc' : q'.dump.dispatch.task = some task)
      (ht : Tasks.After none q.tasks q'.tasks)

/-- What a step of the dump dispatcher is. -/
theorem dumpDispatcher_task (h : q.dumpDispatcher cfg env buf = some (buf', q')) :
    q'.load = q.load ∧ DumpTaskStep q q' := by
  obtain ⟨tasks, load, ⟨waiting, dispatch, dumping, dumper, fin, streamIndex, copies⟩, backend⟩ := q
  cases dispatch with
  | idle =>
    cases waiting with
    | nil => cases h
    | cons task waiting =>
      cases h
      exact ⟨rfl, .pop task waiting rfl rfl rfl rfl rfl⟩
  | check task | waitEvent task | ready task shard rest acc hd | d2h task shard rest acc hd
  | push task acc handle =>
    simp only [Proc.dumpDispatcher] at h
    split_ifs at h <;> cases h <;> exact ⟨rfl, .stay task rfl rfl rfl (.refl _)⟩
  | get task rest acc =>
    cases rest with
    | nil => cases acc <;> cases h <;> exact ⟨rfl, .stay task rfl rfl rfl (.refl _)⟩
    | cons shard rest =>
      rcases dumpDispatcher_get rfl h with ⟨-, rfl⟩ | ⟨hd, -, ⟨-, rfl⟩ | ⟨-, rfl⟩⟩ <;>
        exact ⟨rfl, .stay task rfl rfl rfl (.refl _)⟩
  | skip task rest acc hd =>
    cases h
    exact ⟨rfl, .stay task rfl rfl rfl (.refl _)⟩
  | sync task acc =>
    cases h
    refine ⟨rfl, .stay task rfl rfl ?_ (.refl _)⟩
    dsimp only
    split_ifs <;> rfl
  | markReady task acc todo =>
    cases todo <;> cases h <;> exact ⟨rfl, .stay task rfl rfl rfl (.refl _)⟩
  | submit task acc =>
    obtain ⟨-, ⟨-, rfl⟩ | ⟨handle, -, -, -, rfl⟩⟩ := dumpDispatcher_submit rfl h <;>
      exact ⟨rfl, .stay task rfl rfl rfl (.refl _)⟩
  | unwind task handles =>
    cases handles <;> cases h <;> exact ⟨rfl, .stay task rfl rfl rfl (.refl _)⟩
  | insert task =>
    cases h
    exact ⟨rfl, .stay task rfl rfl rfl (.fail _ _)⟩
  | done task =>
    cases h
    exact ⟨rfl, .done task rfl rfl rfl rfl⟩

/-- The dump dispatcher only completes dump tasks. -/
theorem dumpDispatcher_busy (h : q.dumpDispatcher cfg env buf = some (buf', q')) :
    q'.load = q.load ∧ (∀ id, q'.dump.Busy id → q.dump.Busy id) ∧
      ∃ d, Tasks.After d q.tasks q'.tasks ∧ ∀ id, d = some id → q.dump.Busy id := by
  obtain ⟨hload, hcase⟩ := dumpDispatcher_task h
  refine ⟨hload, ?_⟩
  unfold DumpQueue.Busy
  cases hcase with
  | pop task waiting hpc hw hw' hpc' ht =>
    rw [hw, hw', hpc', ht]
    refine ⟨fun id hid => .inl ?_, none, .refl _, fun _ h => by cases h⟩
    rcases hid with ⟨task', hmem, rfl⟩ | ⟨task', htask, rfl⟩
    · exact ⟨task', List.mem_cons_of_mem _ hmem, rfl⟩
    · cases htask
      exact ⟨task, List.mem_cons_self, rfl⟩
  | done task hpc hw' hpc' ht =>
    rw [hw', hpc', ht, hpc]
    refine ⟨fun id hid => ?_, some task.id, .done _ _, fun id hid => ?_⟩
    · rcases hid with hid | ⟨task', htask, -⟩
      · exact .inl hid
      · cases htask
    · cases hid
      exact .inr ⟨task, rfl, rfl⟩
  | stay task hpc hw' hpc' ht =>
    rw [hw', hpc', hpc]
    exact ⟨fun id hid => hid, none, ht, fun _ h => by cases h⟩

/-! ## The invariant -/

/-- The invariant of a process. -/
structure LoadInv (cfg : Config) (q : Proc) : Prop where
  ok : q.load.pipeline.Ok
  synced : Synced cfg q.load
  /-- A task whose latch is down has nothing in flight. -/
  zero : ∀ id, q.tasks.latch id = 0 → ¬ q.load.pipeline.Busy id
  dump : ∀ id, q.dump.Busy id → ¬ q.load.pipeline.Busy id
  lt : ∀ id, q.load.pipeline.Busy id ∨ q.dump.Busy id → id < q.tasks.nextId
  known : ∀ id, q.tasks.wait id ≠ .unknown → id < q.tasks.nextId
  returned : ∀ id r, q.tasks.wait id = .returned r → q.tasks.latch id = 0

/-- A latch that is down stays down. -/
theorem Tasks.After.latch_eq_zero {d : Option Nat} {t t' : Tasks} (h : Tasks.After d t t') {id : Nat} :
    t.latch id = 0 → t'.latch id = 0 := by
  intro h0
  rw [h.latch]
  cases d with
  | none => exact h0
  | some x =>
    by_cases hx : id = x
    · subst hx
      simp [h0]
    · simp [update_of_ne hx, h0]

/-- `Done` brings down the latch of its task only. -/
theorem Tasks.After.zero_cases {d : Option Nat} {t t' : Tasks} (h : Tasks.After d t t') {id : Nat}
    (h0 : t'.latch id = 0) : t.latch id = 0 ∨ d = some id := by
  rw [h.latch] at h0
  cases d with
  | none => exact .inl h0
  | some x =>
    by_cases hx : id = x
    · exact .inr (by rw [hx])
    · exact .inl (by simpa [update_of_ne hx] using h0)

/-- Steps of the threads of the load queue. -/
theorem LoadInv.loadStep (h : LoadInv cfg q) (hstep : LoadStep q q') (hs : Synced cfg q'.load) :
    LoadInv cfg q' := by
  obtain ⟨⟨d, hp, ht⟩, hdump⟩ := hstep
  refine ⟨hp.ok h.ok, hs, fun id h0 hb => ?_, fun id hid hb => ?_, fun id hid => ?_,
    fun id hid => ?_, fun id r hr => ?_⟩
  · rcases ht.zero_cases h0 with h0 | rfl
    · exact h.zero id h0 (hp.busy hb)
    · exact hp.done h.ok hb
  · rw [hdump] at hid
    exact h.dump id hid (hp.busy hb)
  · rw [hdump] at hid
    rw [ht.nextId]
    exact h.lt id (hid.imp_left hp.busy)
  · rw [ht.wait] at hid
    rw [ht.nextId]
    exact h.known id hid
  · rw [ht.wait] at hr
    exact ht.latch_eq_zero (h.returned id r hr)

/-- Steps of the dump queue. -/
theorem LoadInv.dumpStep (h : LoadInv cfg q) (hload : q'.load = q.load)
    (hbusy : ∀ id, q'.dump.Busy id → q.dump.Busy id) {d : Option Nat}
    (ht : Tasks.After d q.tasks q'.tasks) (hd : ∀ id, d = some id → q.dump.Busy id) :
    LoadInv cfg q' := by
  refine ⟨hload ▸ h.ok, hload ▸ h.synced, fun id h0 => ?_, fun id hid => ?_, fun id hid => ?_,
    fun id hid => ?_, fun id r hr => ?_⟩
  · rw [hload]
    rcases ht.zero_cases h0 with h0 | hid
    · exact h.zero id h0
    · exact h.dump id (hd id hid)
  · rw [hload]
    exact h.dump id (hbusy id hid)
  · rw [hload] at hid
    rw [ht.nextId]
    exact h.lt id (hid.imp_right (hbusy id))
  · rw [ht.wait] at hid
    rw [ht.nextId]
    exact h.known id hid
  · rw [ht.wait] at hr
    exact ht.latch_eq_zero (h.returned id r hr)

/-- A new task, under an id that nothing refers to, joins one of the queues or none. -/
theorem LoadInv.newTask (h : LoadInv cfg q) (hok : q'.load.pipeline.Ok) (hs : Synced cfg q'.load)
    (hbusy : ∀ id, q'.load.pipeline.Busy id → q.load.pipeline.Busy id ∨ id = q.tasks.nextId ∧
      q'.tasks.latch id ≠ 0 ∧ ¬ q'.dump.Busy id)
    (hdump : ∀ id, q'.dump.Busy id → q.dump.Busy id ∨ id = q.tasks.nextId)
    (hlatch : ∀ id, id ≠ q.tasks.nextId → q'.tasks.latch id = q.tasks.latch id)
    (hwait : q'.tasks.wait = update q.tasks.wait q.tasks.nextId .registered)
    (hnext : q'.tasks.nextId = q.tasks.nextId + 1) : LoadInv cfg q' := by
  have hlt : ∀ id, q.load.pipeline.Busy id ∨ q.dump.Busy id → id ≠ q.tasks.nextId := fun id hid =>
    Nat.ne_of_lt (h.lt id hid)
  refine ⟨hok, hs, fun id h0 hb => ?_, fun id hid hb => ?_, fun id hid => ?_, fun id hid => ?_,
    fun id r hr => ?_⟩
  · rcases hbusy id hb with hb | ⟨-, hne, -⟩
    · rw [hlatch id (hlt id (.inl hb))] at h0
      exact h.zero id h0 hb
    · exact hne h0
  · rcases hbusy id hb with hb | ⟨-, -, hno⟩
    · rcases hdump id hid with hid | rfl
      · exact h.dump id hid hb
      · exact hlt _ (.inl hb) rfl
    · exact hno hid
  · rw [hnext]
    rcases hid with hid | hid
    · rcases hbusy id hid with hid | ⟨rfl, -⟩
      · exact Nat.lt_succ_of_lt (h.lt id (.inl hid))
      · exact Nat.lt_succ_self _
    · rcases hdump id hid with hid | rfl
      · exact Nat.lt_succ_of_lt (h.lt id (.inr hid))
      · exact Nat.lt_succ_self _
  · rw [hnext]
    by_cases hid' : id = q.tasks.nextId
    · exact hid' ▸ Nat.lt_succ_self _
    · rw [hwait, update_of_ne hid'] at hid
      exact Nat.lt_succ_of_lt (h.known id hid)
  · rw [hwait] at hr
    by_cases hid : id = q.tasks.nextId
    · rw [hid, update_self] at hr
      cases hr
    · rw [update_of_ne hid] at hr
      rw [hlatch id hid]
      exact h.returned id r hr

/-- `Submit` registers the task, or fails it at once. -/
theorem LoadInv.submit (h : LoadInv cfg q) (type : TaskType) (desc : List Shard)
    (prerequisiteHandle : Nat) : LoadInv cfg (q.submit cfg type desc prerequisiteHandle) := by
  have hnew : ¬ q.load.pipeline.Busy q.tasks.nextId := fun hb =>
    absurd (h.lt _ (.inl hb)) (lt_irrefl _)
  have hnewd : ¬ q.dump.Busy q.tasks.nextId := fun hb => absurd (h.lt _ (.inr hb)) (lt_irrefl _)
  unfold Proc.submit
  cases type with
  | load =>
    dsimp only
    split_ifs
    · have hok := h.ok.submit hnew
      rw [LoadQueue.pipeline, ← List.map_singleton (f := TransTask.id) (a := ⟨_, .load, desc,
        prerequisiteHandle⟩), ← List.map_append] at hok
      refine h.newTask hok ⟨h.synced.finishing, h.synced.streams, h.synced.index⟩
        (fun id hb => ?_) (fun _ hid => .inl hid) (fun id hid => update_of_ne hid _ _)
        rfl rfl
      have hb' : Pipeline.Busy { q.load.pipeline with
          waiting := q.load.pipeline.waiting ++ [q.tasks.nextId] } id := by
        simpa [LoadQueue.pipeline] using hb
      rcases Pipeline.busy_submit hb' with hb | rfl
      · exact .inl hb
      · exact .inr ⟨rfl, by simp, hnewd⟩
    · exact h.newTask h.ok h.synced (fun _ hb => .inl hb) (fun _ hid => .inl hid)
        (fun id hid => by simp [Tasks.done, Tasks.fail, update_of_ne hid]) rfl rfl
  | dump =>
    dsimp only
    split_ifs
    · refine h.newTask h.ok h.synced (fun _ hb => .inl hb) (fun id hid => ?_)
        (fun id hid => update_of_ne hid _ _) rfl rfl
      rcases hid with ⟨task, hmem, rfl⟩ | hid
      · rcases List.mem_append.mp hmem with hmem | hmem
        · exact .inl (.inl ⟨task, hmem, rfl⟩)
        · exact .inr (by rw [List.mem_singleton.mp hmem])
      · exact .inl (.inr hid)
    · exact h.newTask h.ok h.synced (fun _ hb => .inl hb) (fun _ hid => .inl hid)
        (fun id hid => by simp [Tasks.done, Tasks.fail, update_of_ne hid]) rfl rfl

/-- Steps of `Wait(id)`: it returns only when the latch is down. -/
theorem LoadInv.waitStep (h : LoadInv cfg q) {t : Tasks} {id : Nat} {w : WaitState}
    (hid : q.tasks.wait id ≠ .unknown) (hlatch : t.latch = q.tasks.latch)
    (hnext : t.nextId = q.tasks.nextId) (hwait : t.wait = update q.tasks.wait id w)
    (hw : ∀ r, w = .returned r → q.tasks.latch id = 0) : LoadInv cfg { q with tasks := t } := by
  refine ⟨h.ok, h.synced, fun x h0 => ?_, h.dump, fun x hx => ?_, fun x hx => ?_, fun x r hr => ?_⟩
  · rw [hlatch] at h0
    exact h.zero x h0
  · rw [hnext]
    exact h.lt x hx
  · rw [hnext]
    by_cases hxid : x = id
    · exact hxid ▸ h.known id hid
    · rw [hwait, update_of_ne hxid] at hx
      exact h.known x hx
  · rw [hlatch]
    rw [hwait] at hr
    by_cases hxid : x = id
    · subst hxid
      rw [update_self] at hr
      exact hw r hr
    · rw [update_of_ne hxid] at hr
      exact h.returned x r hr

/-- `Wait` returns. -/
theorem LoadInv.waitReturn (h : LoadInv cfg q) {t : Tasks} {id : Nat}
    (ht : q.tasks.waitReturn id = some t) : LoadInv cfg { q with tasks := t } := by
  unfold Tasks.waitReturn at ht
  split_ifs at ht with h0
  split at ht
  · rename_i hw
    cases ht
    exact h.waitStep (by rw [hw]; simp) rfl rfl rfl fun _ _ => h0
  · rename_i hw
    cases ht
    exact h.waitStep (by rw [hw]; simp) rfl rfl rfl fun _ _ => h0
  · cases ht

/-- Every step of the process keeps the invariant. -/
theorem ProcStep.loadInv {act : Action} {stored stored' : Finset Key}
    (hstep : ProcStep cfg env buf stored q act buf' stored' q') (h : LoadInv cfg q)
    (hC : q.LoadFailsAlone cfg env act) : LoadInv cfg q' := by
  cases hstep with
  | submit type desc ph => exact h.submit type desc ph
  | @waitBegin id t ht =>
    unfold Tasks.waitBegin at ht
    split_ifs at ht with hw
    cases ht
    exact h.waitStep (by rw [hw]; simp) rfl rfl rfl fun _ hr => by cases hr
  | @waitTimeout id t ht =>
    unfold Tasks.waitTimeout at ht
    split_ifs at ht with hw
    cases ht
    exact h.waitStep (by rw [hw.1]; simp) rfl rfl rfl fun _ hr => by cases hr
  | waitReturn ht => exact h.waitReturn ht
  | loadDispatcher hr =>
    obtain ⟨hstep', htr, hcp, hidx⟩ := loadDispatcher_pipeline hr fun task shard rest hd hpc => by
      simpa [Proc.LoadFailsAlone, hpc] using hC
    exact h.loadStep hstep' (h.synced.congr htr hcp hidx)
  | loadTransfer hr =>
    obtain ⟨hstep', hs⟩ := loadTransfer_pipeline hr h.synced hC
    exact h.loadStep hstep' hs
  | dumpDispatcher hr =>
    obtain ⟨hload, hbusy, d, ht, hd⟩ := dumpDispatcher_busy hr
    exact h.dumpStep hload hbusy ht hd
  | dumper hr =>
    obtain ⟨ht, hload, hw, hpc, -⟩ := dumper_frame hr
    have hafter : Tasks.After none q.tasks q'.tasks := ht ▸ .refl _
    refine h.dumpStep hload (fun id hid => ?_) hafter fun _ h => by cases h
    simpa only [DumpQueue.Busy, hw, hpc] using hid
  | backendFinish hr =>
    obtain ⟨rfl, -⟩ := backendFinish_eq_some hr
    exact ⟨h.ok, h.synced, h.zero, h.dump, h.lt, h.known, h.returned⟩

/-- What `Wait` has returned is not taken back. -/
theorem ProcStep.returned {act : Action} {stored stored' : Finset Key}
    (hstep : ProcStep cfg env buf stored q act buf' stored' q') (h : LoadInv cfg q)
    (hC : q.LoadFailsAlone cfg env act) {id : Nat} {r : Option Bool}
    (hr : q.tasks.wait id = .returned r) : q'.tasks.wait id = .returned r := by
  have hupd : ∀ {id' : Nat} {w w' : WaitState}, q.tasks.wait id' = w → (∀ r, w ≠ .returned r) →
      update q.tasks.wait id' w' id = .returned r := by
    intro id' w w' hw hne
    rw [update_of_ne fun hid => ?_]
    · exact hr
    · rw [hid, hw] at hr
      exact hne r hr
  cases hstep with
  | submit type desc ph =>
    have hne : id ≠ q.tasks.nextId := Nat.ne_of_lt (h.known id (by rw [hr]; simp))
    have hnew : update q.tasks.wait q.tasks.nextId .registered id = .returned r := by
      rw [update_of_ne hne]
      exact hr
    unfold Proc.submit
    cases type <;> dsimp only <;> split_ifs <;> exact hnew
  | waitBegin ht =>
    unfold Tasks.waitBegin at ht
    split_ifs at ht with hw
    cases ht
    exact hupd hw (by simp)
  | waitTimeout ht =>
    unfold Tasks.waitTimeout at ht
    split_ifs at ht with hw
    cases ht
    exact hupd hw.1 (by simp)
  | waitReturn ht =>
    unfold Tasks.waitReturn at ht
    split_ifs at ht with h0
    split at ht
    · rename_i hw
      cases ht
      exact hupd hw (by simp)
    · rename_i hw
      cases ht
      exact hupd hw (by simp)
    · cases ht
  | loadDispatcher hx =>
    obtain ⟨⟨⟨d, -, ht⟩, -⟩, -⟩ := loadDispatcher_pipeline hx fun task shard rest hd hpc => by
      simpa [Proc.LoadFailsAlone, hpc] using hC
    rw [ht.wait]
    exact hr
  | loadTransfer hx =>
    obtain ⟨⟨⟨d, -, ht⟩, -⟩, -⟩ := loadTransfer_pipeline hx h.synced hC
    rw [ht.wait]
    exact hr
  | dumpDispatcher hx =>
    obtain ⟨-, -, d, ht, -⟩ := dumpDispatcher_busy hx
    rw [ht.wait]
    exact hr
  | dumper hx =>
    rw [(dumper_frame hx).1]
    exact hr
  | backendFinish hx =>
    obtain ⟨rfl, -⟩ := backendFinish_eq_some hx
    exact hr

section Run

variable {n : Nat} {s s' : State n} {e : Event n}

theorem loadInv_step (h : ∀ p, LoadInv cfg (s.procs p)) (hC : LoadFailsAlone cfg s e)
    (hstep : s.step cfg e = some s') : ∀ p, LoadInv cfg (s'.procs p) := by
  obtain ⟨q', hprocs, hps⟩ := step_proc hstep
  rw [hprocs, Function.forall_update_iff s.procs fun _ q => LoadInv cfg q]
  exact ⟨hps.loadInv (h e.p) hC, fun p _ => h p⟩

/-- The invariant holds of every process, in every state reached. -/
theorem loadInv_reach (h : (storeMachine cfg n).Reach (LoadFailsAlone cfg) s) :
    ∀ p, LoadInv cfg (s.procs p) := by
  refine h.inv (I := fun s => ∀ p, LoadInv cfg (s.procs p)) (fun s hs p => ?_)
    fun s e s' hs hC hstep => loadInv_step hs hC hstep
  rw [hs.2 p]
  have hidle : ∀ id, ¬ Proc.init.load.pipeline.Busy id := by
    simp [Pipeline.Busy, Proc.init, LoadQueue.pipeline, DispatchPc.fresh, DispatchPc.more,
      DispatchPc.shards, TransferPc.shards]
  have hidle' : ∀ id, ¬ Proc.init.dump.Busy id := by
    simp [DumpQueue.Busy, Proc.init, DumpPc.task]
  exact
    { ok := ⟨List.nodup_nil, fun _ h => absurd h List.not_mem_nil, fun _ h => (by cases h),
        fun _ h => (by cases h), List.Pairwise.nil⟩
      synced := ⟨fun _ h => (by cases h), fun _ h => absurd h List.not_mem_nil, cfg.stream_pos⟩
      zero := fun id _ => hidle id
      dump := fun id hid => absurd hid (hidle' id)
      lt := fun id hid => absurd hid (by simp [hidle, hidle'])
      known := fun _ h => absurd rfl h
      returned := fun _ _ h => (by cases h) }

/-- What `Wait` has returned stays. -/
theorem returned_step (h : ∀ p, LoadInv cfg (s.procs p)) (hC : LoadFailsAlone cfg s e)
    (hstep : s.step cfg e = some s') {p : Fin n} {id : Nat} {r : Option Bool}
    (hr : (s.procs p).tasks.wait id = .returned r) :
    (s'.procs p).tasks.wait id = .returned r := by
  obtain ⟨q', hprocs, hps⟩ := step_proc hstep
  rw [hprocs]
  by_cases hp : p = e.p
  · subst hp
    rw [update_self]
    exact hps.returned (h e.p) hC hr
  · rw [update_of_ne hp]
    exact hr

/-- **No copy after `Wait`**, in every run in which a load task only fails while nothing of it is under
way: once `Wait(id)` has returned, with any status, no host-to-device copy of the task is
unsynchronised, the transfer thread is not about to issue one, and so it remains. -/
theorem no_copy_after_wait (cfg : Config) (n : Nat) (s : State n)
    (h : (storeMachine cfg n).Reach (LoadFailsAlone cfg) s) (p : Fin n) (id : Nat)
    (r : Option Bool) (hr : (s.procs p).tasks.wait id = .returned r) :
    (∀ c ∈ (s.procs p).load.copies, c.task ≠ id) ∧
    (∀ st, (s.procs p).load.transfer = .h2d st → st.taskHandle ≠ id) ∧
    (∀ e s', LoadFailsAlone cfg s e → s.step cfg e = some s' →
      (s'.procs p).tasks.wait id = .returned r ∧
      ∀ c ∈ (s'.procs p).load.copies, c.task ≠ id) := by
  have hfree : ∀ {s : State n}, (∀ p, LoadInv cfg (s.procs p)) →
      (s.procs p).tasks.wait id = .returned r → ¬ (s.procs p).load.pipeline.Busy id :=
    fun hs hr => (hs p).zero id ((hs p).returned id r hr)
  have hcopies : ∀ {s : State n}, ¬ (s.procs p).load.pipeline.Busy id →
      ∀ c ∈ (s.procs p).load.copies, c.task ≠ id := fun hb c hc hid =>
    hb (.inr (.inr (.inr (.inr (List.mem_map.mpr ⟨c, hc, hid⟩)))))
  have hinv := loadInv_reach h
  refine ⟨hcopies (hfree hinv hr), fun st hst hid => hfree hinv hr ?_, fun e s' hC hstep => ?_⟩
  · refine .inr (.inr (.inr (.inl ?_)))
    simp [LoadQueue.pipeline, hst, TransferPc.shards, ShardTask.piece, hid]
  · have hr' := returned_step hinv hC hstep hr
    exact ⟨hr', hcopies (hfree (loadInv_step hinv hC hstep) hr')⟩

/-- The only process. -/
def proc : Fin 1 := ⟨0, Nat.one_pos⟩

/-- A load of two shards. The backend refuses the second, so the dispatcher calls `Done` and `Wait`
returns; with the id out of the failure set again, the transfer thread goes on with the first. -/
def refusedTrace : List (Event 1) :=
  ⟨proc, .submit .load [⟨7, 0, [100]⟩, ⟨7, 1, [200]⟩] 0, {}⟩ ::
    [⟨proc, .loadDispatcher, {}⟩, ⟨proc, .loadDispatcher, {}⟩,
      ⟨proc, .loadDispatcher, { tryLocks := [true] }⟩, ⟨proc, .loadDispatcher, {}⟩,
      ⟨proc, .loadDispatcher, { handle := some 1 }⟩, ⟨proc, .loadDispatcher, {}⟩,
      ⟨proc, .loadDispatcher, { tryLocks := [true] }⟩, ⟨proc, .loadDispatcher, {}⟩,
      ⟨proc, .loadDispatcher, { handle := none }⟩, ⟨proc, .loadDispatcher, {}⟩,
      ⟨proc, .loadDispatcher, {}⟩, ⟨proc, .waitBegin 1, {}⟩, ⟨proc, .waitReturn 1, {}⟩,
      ⟨proc, .backendFinish 1 true, {}⟩] ++ List.replicate 5 ⟨proc, .loadTransfer, {}⟩

/-- `Wait` has returned an error, and a copy of the task is issued after it. -/
theorem copy_after_wait :
    ∃ s, (storeMachine .small 1).Reachable s ∧ (s.procs 0).tasks.wait 1 = .returned (some false) ∧
      (s.procs 0).load.copies = [⟨1, 100, 0, 0⟩] := by
  obtain ⟨s, hs, hp⟩ := Machine.exists_reachable_of_run (M := storeMachine .small 1)
    (s := .start 1 {(7, 0)}) (l := refusedTrace) (p := fun s =>
      (s.procs 0).tasks.wait 1 = .returned (some false) ∧ (s.procs 0).load.copies = [⟨1, 100, 0,
      0⟩]) ⟨rfl, fun _ => rfl⟩ (by decide +kernel)
  exact ⟨s, hs, hp⟩

/-- A load of two shards that succeeds. -/
def loadTrace : List (Event 1) :=
  [⟨proc, .submit .load [⟨7, 0, [100]⟩, ⟨7, 1, [200]⟩] 0, {}⟩, ⟨proc, .loadDispatcher, {}⟩,
    ⟨proc, .loadDispatcher, {}⟩, ⟨proc, .loadDispatcher, { tryLocks := [true] }⟩,
    ⟨proc, .loadDispatcher, {}⟩, ⟨proc, .loadDispatcher, { handle := some 1 }⟩,
    ⟨proc, .loadDispatcher, {}⟩, ⟨proc, .loadDispatcher, { tryLocks := [true] }⟩,
    ⟨proc, .loadDispatcher, {}⟩, ⟨proc, .loadDispatcher, { handle := some 2 }⟩,
    ⟨proc, .loadDispatcher, {}⟩, ⟨proc, .backendFinish 1 true, {}⟩, ⟨proc, .backendFinish 2 true, {}⟩] ++
  (List.replicate 15 ⟨proc, .loadTransfer, {}⟩ ++ [⟨proc, .waitBegin 1, {}⟩, ⟨proc, .waitReturn 1, {}⟩])

theorem no_copy_after_wait_two_shards :
    ∃ s, (storeMachine .small 1).Reach (LoadFailsAlone .small) s ∧
      (s.procs 0).tasks.wait 1 = .returned (some true) ∧
      ∀ c ∈ (s.procs 0).load.copies, c.task ≠ 1 := by
  obtain ⟨s, hreach, hp⟩ := Machine.exists_reach_of_run (M := storeMachine .small 1)
    (C := LoadFailsAlone .small) (s := .start 1 {(7, 0), (7, 1)}) (l := loadTrace)
    (p := fun s => (s.procs 0).tasks.wait 1 = .returned (some true)) ⟨rfl, fun _ => rfl⟩
    (by decide +kernel)
  exact ⟨s, hreach, hp, (no_copy_after_wait .small 1 s hreach 0 1 _ hp).1⟩

end Run

end UnifiedCache.Cache
