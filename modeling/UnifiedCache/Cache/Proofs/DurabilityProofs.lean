import UnifiedCache.Cache.Durability
import UnifiedCache.Cache.Proofs.CompletionProofs

/-!
# No dump is lost

When `Wait` of a dump returns OK, every shard of the task is saved: stored, in a dump task submitted
to a backend, or collected by a dump that goes on to submit it. That rests on what is ready being
saved, since a dump skips the shards it does not own.
-/

open Function Lib

namespace UnifiedCache.Cache

variable {cfg : Config} {env : Env} {act : Action} {buf buf' : TransBuffer} {q q' : Proc}

/-! ## The load queue completes load tasks -/

/-- What the threads of the load queue do to the tasks. -/
structure LoadTasks (q q' : Proc) : Prop where
  ids : q'.load.ids ⊆ q.load.ids
  dump : q'.dump = q.dump
  tasks : ∃ d, Tasks.After d q.tasks q'.tasks ∧ ∀ id, d = some id → id ∈ q.load.ids

theorem LoadTasks.of_eq (hids : q'.load.ids ⊆ q.load.ids) (hdump : q'.dump = q.dump)
    (ht : Tasks.After none q.tasks q'.tasks) : LoadTasks q q' :=
  ⟨hids, hdump, none, ht, fun _ h => by cases h⟩

theorem loadDispatcher_tasks (h : q.loadDispatcher cfg env buf = some (buf', q')) :
    LoadTasks q q' ∧ q'.load.transfer = q.load.transfer := by
  obtain ⟨tasks, ⟨waiting, dispatch, running, transfer, holder, streamIndex, copies⟩, dump, backend⟩ :=
    q
  cases dispatch with
  | idle =>
    cases waiting with
    | nil => cases h
    | cons task waiting =>
      cases h
      exact ⟨.of_eq (by simp [LoadQueue.ids, DispatchPc.ids]) rfl (.refl _), rfl⟩
  | check task =>
    simp only [Proc.loadDispatcher] at h
    split_ifs at h <;> cases h <;> exact ⟨.of_eq (List.Subset.refl _) rfl (.refl _), rfl⟩
  | skip task | failDone task hd =>
    cases h
    exact ⟨⟨by simp [LoadQueue.ids, DispatchPc.ids], rfl, some task.id, .done _ _,
      fun id hid => by cases hid; simp [LoadQueue.ids, DispatchPc.ids]⟩, rfl⟩
  | get task rest =>
    cases rest with
    | nil =>
      cases h
      exact ⟨.of_eq (by simp [LoadQueue.ids, DispatchPc.ids]) rfl (.refl _), rfl⟩
    | cons shard rest =>
      rcases loadDispatcher_get rfl h with ⟨-, rfl⟩ | ⟨hd, -, ⟨-, rfl⟩ | ⟨-, rfl⟩⟩
      · exact ⟨.of_eq (List.Subset.refl _) rfl (.refl _), rfl⟩
      · exact ⟨.of_eq (List.Subset.refl _) rfl (.refl _), rfl⟩
      · exact ⟨.of_eq (by simp [LoadQueue.ids, DispatchPc.ids]) rfl (.refl _), rfl⟩
  | ready task shard rest hd =>
    simp only [Proc.loadDispatcher] at h
    split_ifs at h <;> cases h
    · exact ⟨.of_eq (by simp [LoadQueue.ids, DispatchPc.ids]) rfl (.refl _), rfl⟩
    · exact ⟨.of_eq (List.Subset.refl _) rfl (.refl _), rfl⟩
  | submit task shard rest hd =>
    obtain ⟨-, ⟨-, rfl⟩ | ⟨handle, -, -, rfl⟩⟩ := loadDispatcher_submit rfl h
    · exact ⟨.of_eq (List.Subset.refl _) rfl (.refl _), rfl⟩
    · exact ⟨.of_eq (by simp [LoadQueue.ids, DispatchPc.ids]) rfl (.refl _), rfl⟩
  | failInsert task hd =>
    cases h
    exact ⟨.of_eq (List.Subset.refl _) rfl (.fail _ _), rfl⟩
  | failDrop hd =>
    cases h
    exact ⟨.of_eq (List.Subset.refl _) rfl (.refl _), rfl⟩
  | push task st rest =>
    simp only [Proc.loadDispatcher] at h
    split_ifs at h
    cases h
    exact ⟨.of_eq (by simp [LoadQueue.ids, DispatchPc.ids]; grind) rfl (.refl _), rfl⟩

theorem loadTransfer_tasks (h : q.loadTransfer cfg env buf = some (buf', q')) :
    LoadTasks q q' ∧ ∀ st, q'.load.transfer = .markReady st →
      q.load.transfer = .waitBackend st ∧
        ∃ q1, q.waitBackend st.backendTaskHandle = some (true, q1) := by
  obtain ⟨tasks, ⟨waiting, dispatch, running, transfer, holder, streamIndex, copies⟩, dump, backend⟩ :=
    q
  cases transfer with
  | idle =>
    cases running with
    | nil => cases h
    | cons st running =>
      cases h
      exact ⟨.of_eq (by simp [LoadQueue.ids, TransferPc.shards]; grind) rfl (.refl _),
        fun _ h => by cases h⟩
  | check st | poll st | pollFailed st =>
    simp only [Proc.loadTransfer] at h
    split_ifs at h <;> cases h <;>
      exact ⟨.of_eq (List.Subset.refl _) rfl (.refl _), fun _ h => by cases h⟩
  | waitBackend st =>
    obtain ⟨-, _ | _, q1, hw, rfl⟩ := loadTransfer_waitBackend rfl h
    · exact ⟨.of_eq (List.Subset.refl _) rfl (.refl _), fun _ h => by cases h⟩
    · refine ⟨.of_eq (List.Subset.refl _) rfl (.refl _), fun st' h' => ?_⟩
      cases h'
      exact ⟨rfl, _, hw⟩
  | markReady st | sync st | drop st =>
    cases h
    exact ⟨.of_eq (List.Subset.refl _) rfl (.refl _), fun _ h => by cases h⟩
  | h2d st =>
    simp only [Proc.loadTransfer] at h
    split_ifs at h <;> cases h
    · exact ⟨.of_eq (List.Subset.refl _) rfl (.refl _), fun _ h => by cases h⟩
    · exact ⟨.of_eq (by simp [LoadQueue.ids, TransferPc.shards]; grind) rfl (.refl _),
        fun _ h => by cases h⟩
    · exact ⟨.of_eq (List.Subset.refl _) rfl (.refl _), fun _ h => by cases h⟩
  | clear st ok =>
    cases holder with
    | nil =>
      cases ok <;> cases h <;>
        exact ⟨.of_eq (List.Subset.refl _) rfl (.refl _), fun _ h => by cases h⟩
    | cons held holder =>
      cases h
      exact ⟨.of_eq (List.Subset.refl _) rfl (.refl _), fun _ h => by cases h⟩
  | fail st =>
    cases h
    exact ⟨.of_eq (List.Subset.refl _) rfl (.fail _ _), fun _ h => by cases h⟩
  | done st =>
    cases h
    refine ⟨?_, fun _ h => by cases h⟩
    cases st.waiter
    · exact .of_eq (by simp [LoadQueue.ids, TransferPc.shards]; grind) rfl (.refl _)
    · exact ⟨by simp [LoadQueue.ids, TransferPc.shards]; grind, rfl, some st.taskHandle, .done _ _,
        fun id hid => by cases hid; simp [LoadQueue.ids, TransferPc.shards]⟩

/-! ## The dump dispatcher -/

variable {k : Key}

theorem dumpDispatcher_collected (h : q.dumpDispatcher cfg env buf = some (buf', q'))
    (hok : q.dumpsSucceed cfg env .dumpDispatcher = true) (hk : k ∈ q.dump.dispatch.collected) :
    (∃ b ∈ q'.backend, b.type = .dump ∧ k ∈ b.shards.map Prod.fst) ∨
      k ∈ q'.dump.dispatch.collected ∧ (q'.dump.dispatch = q.dump.dispatch ∨
        q'.dump.dispatch.remaining < q.dump.dispatch.remaining) := by
  obtain ⟨tasks, load, ⟨waiting, dispatch, dumping, dumper, fin, streamIndex, copies⟩, backend⟩ := q
  cases dispatch with
  | idle | check task | waitEvent task | push task acc handle | unwind task handles | insert task
  | done task => cases hk
  | get task rest acc =>
    cases rest with
    | nil =>
      cases acc with
      | nil => cases hk
      | cons x acc =>
        cases h
        exact .inr ⟨hk, .inr (by simp [DumpPc.remaining])⟩
    | cons shard rest =>
      rcases dumpDispatcher_get rfl h with ⟨-, rfl⟩ | ⟨hd, -, ⟨-, rfl⟩ | ⟨-, rfl⟩⟩
      · exact .inr ⟨hk, .inl rfl⟩
      · exact .inr ⟨List.mem_cons_of_mem _ hk, .inr (by simp [DumpPc.remaining]; omega)⟩
      · exact .inr ⟨hk, .inr (by simp [DumpPc.remaining]; omega)⟩
  | skip task rest acc hd =>
    cases h
    exact .inr ⟨hk, .inr (by simp [DumpPc.remaining])⟩
  | ready task shard rest acc hd =>
    simp only [Proc.dumpDispatcher] at h
    split_ifs at h <;> cases h
    · refine .inr ⟨?_, .inr (by simp [DumpPc.remaining]; omega)⟩
      simpa [DumpPc.collected, or_comm] using hk
    · exact .inr ⟨hk, .inr (by simp [DumpPc.remaining])⟩
  | d2h task shard rest acc hd =>
    simp only [Proc.dumpDispatcher] at h
    have hok' : env.copyOk cfg = true := hok
    rw [if_pos hok'] at h
    cases h
    refine .inr ⟨?_, .inr (by simp [DumpPc.remaining]; omega)⟩
    simpa [DumpPc.collected, or_comm] using hk
  | sync task acc =>
    cases h
    have hok' : env.syncOk cfg = true := hok
    simp only [hok', if_true]
    exact .inr ⟨hk, .inr (by simp [DumpPc.remaining])⟩
  | markReady task acc todo =>
    cases todo with
    | nil | cons x todo =>
      cases h
      exact .inr ⟨hk, .inr (by simp [DumpPc.remaining])⟩
  | submit task acc =>
    obtain ⟨-, ⟨henv, rfl⟩ | ⟨handle, -, -, -, rfl⟩⟩ := dumpDispatcher_submit rfl h
    · simp [Proc.dumpsSucceed, henv] at hok
    · refine .inl ⟨_, List.mem_append.mpr (.inr (List.mem_singleton_self _)), rfl, ?_⟩
      simpa [DumpPc.collected] using hk

theorem DumpPc.Progress.mono {saved saved' : Key → Prop} {fs fs' : Finset Nat} {pc : DumpPc}
    (h : pc.Progress saved fs) (hmono : ∀ k, saved k → saved' k)
    (hfs : ∀ task, pc = .done task → task.id ∈ fs → task.id ∈ fs') : pc.Progress saved' fs' := by
  cases pc with
  | get | skip | ready | d2h => exact fun sh hsh => (h sh hsh).imp_right (hmono _)
  | sync | submit | push => exact fun sh hsh => hmono _ (h sh hsh)
  | markReady => exact ⟨h.1, fun sh hsh => hmono _ (h.2 sh hsh)⟩
  | done task => exact h.imp (fun h sh hsh => hmono _ (h sh hsh)) (hfs task rfl)
  | idle | check | waitEvent | unwind | insert => trivial

theorem dumpDispatcher_progress {saved : Key → Prop}
    (h : q.dumpDispatcher cfg env buf = some (buf', q'))
    (hp : q.dump.dispatch.Progress saved q.tasks.failureSet)
    (hcol : ∀ k ∈ q'.dump.dispatch.collected, saved k)
    (hskip : ∀ k hd buf1, q.dumpGet .dumpDispatcher = some k →
      buf.get cfg.buffer k.1 k.2 false env.tryLocks = (some hd, buf1) → hd.owner = false → saved k) :
    q'.dump.dispatch.Progress saved q'.tasks.failureSet := by
  obtain ⟨tasks, load, ⟨waiting, dispatch, dumping, dumper, fin, streamIndex, copies⟩, backend⟩ := q
  cases dispatch with
  | idle =>
    cases waiting <;> cases h
    trivial
  | check task =>
    simp only [Proc.dumpDispatcher] at h
    split_ifs at h with hf hpre <;> cases h
    · exact .inr hf
    · trivial
    · exact fun sh hsh => .inl hsh
  | waitEvent task =>
    simp only [Proc.dumpDispatcher] at h
    split_ifs at h <;> cases h
    · exact fun sh hsh => .inl hsh
    · trivial
  | get task rest acc =>
    cases rest with
    | nil =>
      have hall : ∀ sh ∈ task.desc, saved sh.key :=
        fun sh hsh => (hp sh hsh).resolve_left List.not_mem_nil
      cases acc <;> cases h
      · exact .inl hall
      · exact hall
    | cons shard rest =>
      have hnext : saved shard.key → ∀ sh ∈ task.desc, sh ∈ rest ∨ saved sh.key := by
        intro hs sh hsh
        rcases hp sh hsh with hmem | hsv
        · rcases List.mem_cons.mp hmem with rfl | hmem
          · exact .inr hs
          · exact .inl hmem
        · exact .inr hsv
      rcases dumpDispatcher_get rfl h with ⟨-, rfl⟩ | ⟨hd, hg, ⟨-, rfl⟩ | ⟨ho, rfl⟩⟩
      · exact hp
      · exact hnext (hcol _ List.mem_cons_self)
      · exact hnext (hskip _ hd _ rfl hg ho)
  | skip task rest acc hd =>
    cases h
    exact hp
  | ready task shard rest acc hd =>
    simp only [Proc.dumpDispatcher] at h
    split_ifs at h <;> cases h <;> exact hp
  | d2h task shard rest acc hd =>
    simp only [Proc.dumpDispatcher] at h
    split_ifs at h <;> cases h
    · exact hp
    · trivial
  | sync task acc =>
    cases h
    by_cases hok : env.syncOk cfg = true
    · simp only [hok, if_true]
      exact ⟨List.Subset.refl _, hp⟩
    · simp only [hok]
      trivial
  | markReady task acc todo =>
    cases todo <;> cases h
    · exact hp.2
    · exact ⟨fun y hy => hp.1 (List.mem_cons_of_mem _ hy), hp.2⟩
  | submit task acc =>
    obtain ⟨-, ⟨-, rfl⟩ | ⟨handle, -, -, -, rfl⟩⟩ := dumpDispatcher_submit rfl h
    · trivial
    · exact hp
  | push task acc handle =>
    simp only [Proc.dumpDispatcher] at h
    split_ifs at h
    cases h
    exact .inl hp
  | unwind task handles => cases handles <;> cases h <;> trivial
  | insert task =>
    cases h
    exact .inr (Finset.mem_insert_self _ _)
  | done task =>
    cases h
    trivial

/-! ## Dump tasks -/

/-- The dump queue is done with the task: its shards are saved, or `Wait` does not return OK. -/
def Finished (saved : Key → Prop) (t : Tasks) (task : TransTask) : Prop :=
  (∀ sh ∈ task.desc, saved sh.key) ∨ t.wait task.id = .returned (some false) ∨
    t.wait task.id = .returned none ∨
    task.id ∈ t.failureSet ∧ ∀ r, t.wait task.id ≠ .returned r

/-- The dump tasks of a process. -/
structure DumpTasks (saved : Key → Prop) (q : Proc) : Prop where
  lt : ∀ task ∈ q.tasks.submitted, task.id < q.tasks.nextId
  unique : ∀ task ∈ q.tasks.submitted, ∀ task' ∈ q.tasks.submitted, task.id = task'.id → task = task'
  load : ∀ id ∈ q.load.ids, ∃ task ∈ q.tasks.submitted, task.id = id ∧ task.type = .load
  /-- `Wait` does not return while the dump queue works on the task. -/
  busy : ∀ task ∈ q.dump.tasks, task ∈ q.tasks.submitted ∧ task.type = .dump ∧
    q.tasks.latch task.id ≠ 0 ∧ ∀ r, q.tasks.wait task.id ≠ .returned r
  nodup : (q.dump.tasks.map TransTask.id).Nodup
  finished : ∀ task ∈ q.tasks.submitted, task.type = .dump →
    task ∈ q.dump.tasks ∨ Finished saved q.tasks task
  progress : q.dump.dispatch.Progress saved q.tasks.failureSet

theorem Finished.mono {saved saved' : Key → Prop} {t t' : Tasks} {task : TransTask}
    (h : Finished saved t task) (hmono : ∀ k, saved k → saved' k)
    (hwait : t'.wait task.id = t.wait task.id)
    (hfs : task.id ∈ t.failureSet → task.id ∈ t'.failureSet) : Finished saved' t' task := by
  unfold Finished
  rw [hwait]
  exact h.imp (fun h sh hsh => hmono _ (h sh hsh)) (.imp_right (.imp_right (.imp_left hfs)))

theorem DumpTasks.step {saved saved' : Key → Prop} (h : DumpTasks saved q)
    (hsubl : q'.dump.tasks.Sublist q.dump.tasks) (hids : q'.load.ids ⊆ q.load.ids)
    (hsub : q'.tasks.submitted = q.tasks.submitted) (hnext : q'.tasks.nextId = q.tasks.nextId)
    (hbusy : ∀ task ∈ q'.dump.tasks, q'.tasks.latch task.id ≠ 0 ∧
      ∀ r, q'.tasks.wait task.id ≠ .returned r)
    (hfin : ∀ task ∈ q.tasks.submitted, task ∈ q.dump.tasks ∨ Finished saved q.tasks task →
      task ∈ q'.dump.tasks ∨ Finished saved' q'.tasks task)
    (hp : q'.dump.dispatch.Progress saved' q'.tasks.failureSet) : DumpTasks saved' q' := by
  refine ⟨?_, ?_, ?_, fun task ht => ?_, h.nodup.sublist (hsubl.map _), ?_, hp⟩
  · rw [hsub, hnext]
    exact h.lt
  · rw [hsub]
    exact h.unique
  · rw [hsub]
    exact fun id hid => h.load id (hids hid)
  · rw [hsub]
    obtain ⟨h1, h2, -⟩ := h.busy task (hsubl.subset ht)
    exact ⟨h1, h2, hbusy task ht⟩
  · rw [hsub]
    exact fun task ht htype => hfin task ht (h.finished task ht htype)

theorem DumpTasks.keep {saved saved' : Key → Prop} (h : DumpTasks saved q)
    (hmono : ∀ k, saved k → saved' k) (hdisp : q'.dump.dispatch = q.dump.dispatch)
    (hw : q'.dump.waiting = q.dump.waiting) (hids : q'.load.ids ⊆ q.load.ids)
    (hsub : q'.tasks.submitted = q.tasks.submitted) (hnext : q'.tasks.nextId = q.tasks.nextId)
    (hbusy : ∀ task ∈ q.dump.tasks, q'.tasks.latch task.id ≠ 0 ∧
      (∀ r, q'.tasks.wait task.id ≠ .returned r) ∧
      (task.id ∈ q.tasks.failureSet → task.id ∈ q'.tasks.failureSet))
    (hfin : ∀ task ∈ q.tasks.submitted, Finished saved q.tasks task →
      Finished saved' q'.tasks task) : DumpTasks saved' q' := by
  have htasks : q'.dump.tasks = q.dump.tasks := by simp only [DumpQueue.tasks, hdisp, hw]
  refine h.step (htasks ▸ List.Sublist.refl _) hids hsub hnext
    (fun task ht => ?_) (fun task ht hcase => ?_) ?_
  · rw [htasks] at ht
    exact ⟨(hbusy task ht).1, (hbusy task ht).2.1⟩
  · rw [htasks]
    exact hcase.imp_right (hfin task ht)
  · rw [hdisp]
    refine h.progress.mono hmono fun task htask hmem => ?_
    refine (hbusy task ?_).2.2 hmem
    rw [DumpQueue.tasks, htask]
    exact List.mem_cons_self

theorem DumpTasks.loadTasks {saved saved' : Key → Prop} (h : DumpTasks saved q)
    (hmono : ∀ k, saved k → saved' k) (hl : LoadTasks q q') : DumpTasks saved' q' := by
  obtain ⟨hids, hdump, d, ht, hd⟩ := hl
  refine h.keep hmono (by rw [hdump]) (by rw [hdump]) hids ht.submitted ht.nextId
    (fun task htask => ?_) fun task _ hfin => hfin.mono hmono (by rw [ht.wait]) (ht.failureSet ·)
  obtain ⟨hsub, htype, hlatch, hret⟩ := h.busy task htask
  refine ⟨fun h0 => ?_, by rw [ht.wait]; exact hret, (ht.failureSet ·)⟩
  rcases ht.zero_cases h0 with h0 | hid
  · exact hlatch h0
  · obtain ⟨task', hsub', hid', htype'⟩ := h.load _ (hd _ hid)
    rw [h.unique _ hsub' _ hsub hid', htype] at htype'
    cases htype'

theorem DumpTasks.same {saved saved' : Key → Prop} (h : DumpTasks saved q)
    (hmono : ∀ k, saved k → saved' k) (hdisp : q'.dump.dispatch = q.dump.dispatch)
    (hw : q'.dump.waiting = q.dump.waiting) (hload : q'.load = q.load)
    (ht : q'.tasks = q.tasks) : DumpTasks saved' q' :=
  h.keep hmono hdisp hw (by rw [hload]; exact List.Subset.refl _) (by rw [ht]) (by rw [ht])
    (fun task htask => by rw [ht]; exact ⟨(h.busy task htask).2.2.1, (h.busy task htask).2.2.2, id⟩)
    fun task _ hfin => hfin.mono hmono (by rw [ht]) (by rw [ht]; exact id)

section Waits

variable {saved saved' : Key → Prop} {t : Tasks} {id : Nat}

theorem DumpTasks.waits (h : DumpTasks saved q) (hmono : ∀ k, saved k → saved' k) {w : WaitState}
    (hlatch : t.latch = q.tasks.latch) (hsub : t.submitted = q.tasks.submitted)
    (hnext : t.nextId = q.tasks.nextId) (hfs : q.tasks.failureSet ⊆ t.failureSet)
    (hwait : t.wait = update q.tasks.wait id w)
    (hold : ∀ r, q.tasks.wait id ≠ .returned r) (hw : ∀ r, w ≠ .returned r) :
    DumpTasks saved' { q with tasks := t } := by
  have hret : ∀ x, (∀ r, q.tasks.wait x ≠ .returned r) → ∀ r, t.wait x ≠ .returned r := by
    intro x hx r
    rw [hwait]
    by_cases hxid : x = id
    · rw [hxid, update_self]
      exact hw r
    · rw [update_of_ne hxid]
      exact hx r
  refine h.keep hmono rfl rfl (List.Subset.refl _) hsub hnext (fun task htask => ?_)
    fun task htask hfin => ?_
  · obtain ⟨-, -, h1, h2⟩ := h.busy task htask
    exact ⟨by rw [hlatch]; exact h1, hret _ h2, (hfs ·)⟩
  · rcases hfin with hs | hr | hr | ⟨hmem, hr⟩
    · exact .inl fun sh hsh => hmono _ (hs sh hsh)
    · have hne : task.id ≠ id := fun e => hold _ (e ▸ hr)
      exact .inr (.inl (by rw [hwait, update_of_ne hne]; exact hr))
    · have hne : task.id ≠ id := fun e => hold _ (e ▸ hr)
      exact .inr (.inr (.inl (by rw [hwait, update_of_ne hne]; exact hr)))
    · exact .inr (.inr (.inr ⟨hfs hmem, hret _ hr⟩))

theorem DumpTasks.waitReturn (h : DumpTasks saved q) (hmono : ∀ k, saved k → saved' k)
    (ht : q.tasks.waitReturn id = some t) : DumpTasks saved' { q with tasks := t } := by
  obtain ⟨h0, r, hold, hfail, rfl⟩ : q.tasks.latch id = 0 ∧ ∃ r, (∀ r', q.tasks.wait id ≠ .returned r') ∧
      (id ∈ q.tasks.failureSet → r ≠ some true) ∧ t = { q.tasks with
        failureSet := q.tasks.failureSet.erase id
        wait := update q.tasks.wait id (.returned r) } := by
    unfold Tasks.waitReturn at ht
    split_ifs at ht with h0
    refine ⟨h0, ?_⟩
    split at ht
    · rename_i hw
      cases ht
      exact ⟨_, by simp [hw], by simp, rfl⟩
    · rename_i hw
      cases ht
      exact ⟨_, by simp [hw], by simp, rfl⟩
    · cases ht
  refine h.keep hmono rfl rfl (List.Subset.refl _) rfl rfl (fun task htask => ?_)
    fun task htask hfin => ?_
  · obtain ⟨-, -, h1, h2⟩ := h.busy task htask
    have hne : task.id ≠ id := fun e => h1 (e ▸ h0)
    refine ⟨h1, fun r' => ?_, fun hmem => Finset.mem_erase.mpr ⟨hne, hmem⟩⟩
    dsimp only
    rw [update_of_ne hne]
    exact h2 r'
  · by_cases hid : task.id = id
    · subst hid
      rcases hfin with hs | hr | hr | ⟨hmem, -⟩
      · exact .inl fun sh hsh => hmono _ (hs sh hsh)
      · exact absurd hr (hold _)
      · exact absurd hr (hold _)
      · have hr := hfail hmem
        unfold Finished
        dsimp only
        rw [update_self]
        match r, hr with
        | none, _ => exact .inr (.inr (.inl rfl))
        | some false, _ => exact .inr (.inl rfl)
    · exact hfin.mono hmono (update_of_ne hid _ _)
        fun hmem => Finset.mem_erase.mpr ⟨hid, hmem⟩

end Waits

theorem DumpTasks.newTask {saved saved' : Key → Prop} (h : DumpTasks saved q)
    (hmono : ∀ k, saved k → saved' k) (task : TransTask) (hid : task.id = q.tasks.nextId)
    (hsub : q'.tasks.submitted = q.tasks.submitted ++ [task])
    (hnext : q'.tasks.nextId = q.tasks.nextId + 1)
    (hlatch : ∀ id, id ≠ q.tasks.nextId → q'.tasks.latch id = q.tasks.latch id)
    (hwait : q'.tasks.wait = update q.tasks.wait q.tasks.nextId .registered)
    (hfs : q.tasks.failureSet ⊆ q'.tasks.failureSet)
    (hdisp : q'.dump.dispatch = q.dump.dispatch)
    (hids : ∀ id ∈ q'.load.ids, id ∈ q.load.ids ∨ id = task.id ∧ task.type = .load)
    (hdump : q'.dump.waiting = q.dump.waiting ∧ (task.type = .dump → task.id ∈ q'.tasks.failureSet) ∨
      q'.dump.waiting = q.dump.waiting ++ [task] ∧ task.type = .dump ∧ q'.tasks.latch task.id ≠ 0) :
    DumpTasks saved' q' := by
  have hold : ∀ t ∈ q.tasks.submitted, t.id ≠ q.tasks.nextId := fun t ht => Nat.ne_of_lt (h.lt t ht)
  have hwait' : ∀ t ∈ q.tasks.submitted, q'.tasks.wait t.id = q.tasks.wait t.id := fun t ht => by
    rw [hwait, update_of_ne (hold t ht)]
  have hreg : q'.tasks.wait task.id = .registered := by rw [hwait, hid, update_self]
  have hmem : ∀ t, t ∈ q'.tasks.submitted ↔ t ∈ q.tasks.submitted ∨ t = task := fun t => by
    rw [hsub, List.mem_append, List.mem_singleton]
  have htasks : q'.dump.tasks = q.dump.tasks ∧ (task.type = .dump → task.id ∈ q'.tasks.failureSet) ∨
      q'.dump.tasks = q.dump.tasks ++ [task] ∧ task.type = .dump ∧ q'.tasks.latch task.id ≠ 0 := by
    unfold DumpQueue.tasks
    rw [hdisp]
    rcases hdump with ⟨hw, hrest⟩ | ⟨hw, hrest⟩
    · exact .inl ⟨by rw [hw], hrest⟩
    · exact .inr ⟨by rw [hw, List.append_assoc], hrest⟩
  have hbusy : ∀ t ∈ q.dump.tasks, t ∈ q'.tasks.submitted ∧ t.type = .dump ∧
      q'.tasks.latch t.id ≠ 0 ∧ ∀ r, q'.tasks.wait t.id ≠ .returned r := by
    intro t ht
    obtain ⟨h1, h2, h3, h4⟩ := h.busy t ht
    exact ⟨(hmem t).mpr (.inl h1), h2, by rw [hlatch _ (hold t h1)]; exact h3,
      by rw [hwait' t h1]; exact h4⟩
  refine ⟨fun t ht => ?_, fun t ht t' ht' heq => ?_, fun id hi => ?_, fun t ht => ?_, ?_,
    fun t ht htype => ?_, ?_⟩
  · rw [hnext]
    rcases (hmem t).mp ht with ht | rfl
    · exact Nat.lt_succ_of_lt (h.lt t ht)
    · rw [hid]
      exact Nat.lt_succ_self _
  · rcases (hmem t).mp ht with ht | rfl <;> rcases (hmem t').mp ht' with ht' | rfl
    · exact h.unique t ht t' ht' heq
    · exact absurd (heq.trans hid) (hold t ht)
    · exact absurd (heq.symm.trans hid) (hold t' ht')
    · rfl
  · rcases hids id hi with hi | ⟨rfl, htype⟩
    · obtain ⟨t, ht, hrest⟩ := h.load id hi
      exact ⟨t, (hmem t).mpr (.inl ht), hrest⟩
    · exact ⟨task, (hmem task).mpr (.inr rfl), rfl, htype⟩
  · rcases htasks with ⟨heq, -⟩ | ⟨heq, htype, hl⟩
    · exact hbusy t (heq ▸ ht)
    · rw [heq, List.mem_append, List.mem_singleton] at ht
      rcases ht with ht | rfl
      · exact hbusy t ht
      · exact ⟨(hmem t).mpr (.inr rfl), htype, hl, fun r => by rw [hreg]; simp⟩
  · rcases htasks with ⟨heq, -⟩ | ⟨heq, -⟩
    · rw [heq]
      exact h.nodup
    · rw [heq, List.map_append, List.nodup_append]
      refine ⟨h.nodup, List.nodup_singleton _, fun a ha b hb hab => ?_⟩
      obtain ⟨t, ht, rfl⟩ := List.mem_map.mp ha
      rw [List.map_singleton, List.mem_singleton] at hb
      exact hold t (h.busy t ht).1 (by rw [hab, hb, hid])
  · rcases (hmem t).mp ht with ht | rfl
    · rcases h.finished t ht htype with hb | hfin
      · refine .inl ?_
        rcases htasks with ⟨heq, -⟩ | ⟨heq, -⟩
        · exact heq ▸ hb
        · rw [heq]
          exact List.mem_append_left _ hb
      · exact .inr (hfin.mono hmono (hwait' t ht) (hfs ·))
    · rcases htasks with ⟨-, hfail⟩ | ⟨heq, -⟩
      · exact .inr (.inr (.inr (.inr ⟨hfail htype, fun r => by rw [hreg]; simp⟩)))
      · rw [heq]
        exact .inl (List.mem_append_right _ (List.mem_singleton_self _))
  · rw [hdisp]
    exact h.progress.mono hmono fun _ _ hm => hfs hm

theorem DumpTasks.submit {saved saved' : Key → Prop} (h : DumpTasks saved q)
    (hmono : ∀ k, saved k → saved' k) (type : TaskType) (desc : List Shard)
    (prerequisiteHandle : Nat) : DumpTasks saved' (q.submit cfg type desc prerequisiteHandle) := by
  unfold Proc.submit
  cases type with
  | load =>
    dsimp only
    split_ifs
    · refine h.newTask hmono ⟨q.tasks.nextId, .load, desc, prerequisiteHandle⟩ rfl rfl rfl
        (fun id hid => update_of_ne hid _ _) rfl subset_rfl rfl (fun id hi => ?_)
        (.inl ⟨rfl, fun h => by cases h⟩)
      simp only [LoadQueue.ids, List.map_append, List.mem_append, List.map_cons, List.map_nil,
        List.mem_singleton] at hi ⊢
      tauto
    · exact h.newTask hmono ⟨q.tasks.nextId, .load, desc, prerequisiteHandle⟩ rfl rfl rfl
        (fun id hid => by simp [Tasks.done, Tasks.fail, update_of_ne hid]) rfl
        (Finset.subset_insert _ _) rfl (fun id hi => .inl hi) (.inl ⟨rfl, fun h => by cases h⟩)
  | dump =>
    dsimp only
    split_ifs
    · exact h.newTask hmono ⟨q.tasks.nextId, .dump, desc, prerequisiteHandle⟩ rfl rfl rfl
        (fun id hid => update_of_ne hid _ _) rfl subset_rfl rfl (fun id hi => .inl hi)
        (.inr ⟨rfl, rfl, by simp⟩)
    · exact h.newTask hmono ⟨q.tasks.nextId, .dump, desc, prerequisiteHandle⟩ rfl rfl rfl
        (fun id hid => by simp [Tasks.done, Tasks.fail, update_of_ne hid]) rfl
        (Finset.subset_insert _ _) rfl (fun id hi => .inl hi)
        (.inl ⟨rfl, fun _ => Finset.mem_insert_self _ _⟩)

theorem DumpTasks.dumpDispatcher {saved saved' : Key → Prop} (h : DumpTasks saved q)
    (hmono : ∀ k, saved k → saved' k) (hload : q'.load = q.load) (ht : DumpTaskStep q q')
    (hp : q'.dump.dispatch.Progress saved' q'.tasks.failureSet) : DumpTasks saved' q' := by
  have hids : q'.load.ids ⊆ q.load.ids := by rw [hload]; exact List.Subset.refl _
  cases ht with
  | pop task waiting hpc hw hw' hpc' ht =>
    have htasks : q'.dump.tasks = q.dump.tasks := by
      simp only [DumpQueue.tasks, hpc, hpc', hw, hw', DumpPc.task]
      rfl
    refine h.step (htasks ▸ List.Sublist.refl _) hids (by rw [ht]) (by rw [ht])
      (fun task' hm => ?_) (fun task' _ hcase => ?_) hp
    · rw [ht]
      exact (h.busy task' (htasks ▸ hm)).2.2
    · rw [ht, htasks]
      exact hcase.imp_right (·.mono hmono rfl id)
  | done task hpc hw' hpc' ht =>
    have hq : q.dump.tasks = task :: q.dump.waiting := by
      simp only [DumpQueue.tasks, hpc, DumpPc.task]
      rfl
    have hq' : q'.dump.tasks = q.dump.waiting := by
      simp only [DumpQueue.tasks, hpc', hw', DumpPc.task]
      rfl
    have hnd := h.nodup
    rw [hq, List.map_cons, List.nodup_cons] at hnd
    refine h.step (by rw [hq, hq']; exact List.sublist_cons_self _ _) hids (by rw [ht]; rfl)
      (by rw [ht]; rfl) (fun task' hm => ?_) (fun task' _ hcase => ?_) hp
    · rw [hq'] at hm
      have hne : task'.id ≠ task.id := fun e => hnd.1 (e ▸ List.mem_map_of_mem hm)
      rw [ht]
      have hb := (h.busy task' (hq ▸ List.mem_cons_of_mem _ hm)).2.2
      exact ⟨by simpa [Tasks.done, update_of_ne hne] using hb.1, hb.2⟩
    · rw [hq', ht]
      rcases hcase with hm | hfin
      · rw [hq, List.mem_cons] at hm
        rcases hm with rfl | hm
        · -- the task is done: its shards are saved, or it is in the failure set
          have hret := (h.busy task' (hq ▸ List.mem_cons_self)).2.2.2
          have hprog := h.progress
          rw [hpc] at hprog
          rcases hprog with hs | hf
          · exact .inr (.inl fun sh hsh => hmono _ (hs sh hsh))
          · exact .inr (.inr (.inr (.inr ⟨hf, hret⟩)))
        · exact .inl hm
      · exact .inr (hfin.mono hmono rfl id)
  | stay task hpc hw' hpc' ht =>
    have htasks : q'.dump.tasks = q.dump.tasks := by
      simp only [DumpQueue.tasks, hpc, hpc', hw']
    refine h.step (htasks ▸ List.Sublist.refl _) hids ht.submitted ht.nextId
      (fun task' hm => ?_) (fun task' _ hcase => ?_) hp
    · rw [htasks] at hm
      refine ⟨fun h0 => ?_, by rw [ht.wait]; exact (h.busy task' hm).2.2.2⟩
      rcases ht.zero_cases h0 with h0 | hd
      · exact (h.busy task' hm).2.2.1 h0
      · cases hd
    · rw [htasks]
      exact hcase.imp_right (·.mono hmono (by rw [ht.wait]) (ht.failureSet ·))

/-! ## Backend tasks -/

theorem Effect.mem_backend (he : Effect cfg env act buf q buf' q') {b : BackendTask}
    (hb : b ∈ q.backend) :
    ∃ b' ∈ q'.backend, b'.handle = b.handle ∧ b'.type = b.type ∧ b'.shards = b.shards := by
  have hmap : ∀ f : BackendTask → BackendTask, (f b).handle = b.handle → (f b).type = b.type →
      (f b).shards = b.shards → ∃ b' ∈ q.backend.map f, b'.handle = b.handle ∧ b'.type = b.type ∧
      b'.shards = b.shards := fun f h1 h2 h3 => ⟨f b, List.mem_map_of_mem hb, h1, h2, h3⟩
  cases he with
  | retag _ _ hbackend | search _ _ _ _ hbackend | get _ _ _ _ _ _ _ hbackend
  | release _ _ hbackend | abandon _ _ _ _ _ _ _ _ hbackend =>
    rw [hbackend]
    exact ⟨b, hb, rfl, rfl, rfl⟩
  | submitLoad _ _ _ _ _ _ _ hbackend | submitDump _ _ _ _ hbackend =>
    rw [hbackend]
    exact ⟨b, List.mem_append_left _ hb, rfl, rfl, rfl⟩
  | waitLoad _ _ _ _ _ _ _ _ hbackend | waitDump _ _ hbackend | finish _ _ _ _ hbackend =>
    rw [hbackend]
    refine hmap _ ?_ ?_ ?_ <;> split_ifs <;> rfl

/-- The backend tasks of a process, over what is stored. -/
structure BackendInv (stored : Finset Key) (q : Proc) : Prop where
  nodup : (q.backend.map BackendTask.handle).Nodup
  /-- A shard whose backend load is under way has a backend task. -/
  loading : ∀ i k handle, (i, .loading k handle) ∈ q.pins →
    ∃ b ∈ q.backend, b.handle = handle ∧ b.type = .load ∧ b.shards = [(k, i)]
  /-- A load that succeeded found its shards. -/
  stored : ∀ b ∈ q.backend, b.type = .load → b.result = some true → ∀ x ∈ b.shards, x.1 ∈ stored

variable {stored stored' : Finset Key}

theorem Effect.backendInv (he : Effect cfg env act buf q buf' q') (h : BackendInv stored q)
    (hsub : stored ⊆ stored')
    (hfinish : ∀ handle, act = .backendFinish handle true → ∀ b ∈ q.backend, b.handle = handle →
      b.type = .load → ∀ x ∈ b.shards, x.1 ∈ stored) : BackendInv stored' q' := by
  have hloading : ∀ i k handle, (i, .loading k handle) ∈ q.pins →
      ∃ b ∈ q'.backend, b.handle = handle ∧ b.type = .load ∧ b.shards = [(k, i)] := by
    intro i k handle hpin
    obtain ⟨b, hb, h1, h2, h3⟩ := h.loading i k handle hpin
    obtain ⟨b', hb', h1', h2', h3'⟩ := he.mem_backend hb
    exact ⟨b', hb', h1'.trans h1, h2'.trans h2, h3'.trans h3⟩
  -- results: a load that succeeded had succeeded before, or does so now
  have hold : ∀ b ∈ q.backend, b.type = .load → b.result = some true →
      ∀ x ∈ b.shards, x.1 ∈ stored' := fun b hb h1 h2 x hx => hsub (h.stored b hb h1 h2 x hx)
  have hwaited : ∀ handle, (markWaited handle q.backend).map BackendTask.handle =
      q.backend.map BackendTask.handle ∧ ∀ b ∈ markWaited handle q.backend, b.type = .load →
      b.result = some true → ∀ x ∈ b.shards, x.1 ∈ stored' := by
    refine fun handle => ⟨?_, fun b hb h1 h2 => ?_⟩
    · rw [markWaited, List.map_map]
      refine List.map_congr_left fun b _ => ?_
      simp only [Function.comp_apply]
      split_ifs <;> rfl
    · obtain ⟨b0, hb0, rfl⟩ := List.mem_map.mp hb
      split_ifs at h1 h2 ⊢ <;> exact hold b0 hb0 h1 h2
  have happ : ∀ b : BackendTask, b.handle ∉ q.backend.map BackendTask.handle → b.result = none →
      ((q.backend ++ [b]).map BackendTask.handle).Nodup ∧ ∀ b' ∈ q.backend ++ [b], b'.type = .load →
      b'.result = some true → ∀ x ∈ b'.shards, x.1 ∈ stored' := by
    refine fun b hfresh hres => ⟨?_, fun b' hb' h1 h2 => ?_⟩
    · rw [List.map_append, List.nodup_append]
      refine ⟨h.nodup, List.nodup_singleton _, fun a ha c hc hac => ?_⟩
      rw [List.map_singleton, List.mem_singleton] at hc
      exact hfresh (hc ▸ hac ▸ ha)
    · rcases List.mem_append.mp hb' with hb' | hb'
      · exact hold b' hb' h1 h2
      · rw [List.mem_singleton.mp hb', hres] at h2
        cases h2
  cases he with
  | retag hbuf hpins hbackend =>
    refine ⟨hbackend ▸ h.nodup, fun i k handle hpin => ?_, hbackend ▸ hold⟩
    obtain ⟨x, hx, hxy⟩ := Multiset.exists_mem_of_rel_of_mem (Multiset.rel_flip.mpr hpins) hpin
    rw [flip] at hxy
    generalize hy : ((i, .loading k handle) : Pin) = y at hxy
    cases hxy with
    | same => exact hloading i k handle (hy ▸ hx)
    | settled j k' r hready hr => rcases hr with rfl | rfl <;> cases hy
    | waited => cases hy
    | gaveUp => cases hy
  | search k allowReserved hget hpins hbackend =>
    exact ⟨hbackend ▸ h.nodup, hpins ▸ hloading, hbackend ▸ hold⟩
  | get k allowReserved hd r hget hrole hpins hbackend =>
    refine ⟨hbackend ▸ h.nodup, fun i k' handle hpin => ?_, hbackend ▸ hold⟩
    rw [hpins, Multiset.mem_add, Multiset.mem_singleton] at hpin
    rcases hpin with hpin | hpin
    · cases hpin
      rcases hrole with ⟨-, hr⟩ | ⟨-, hr | ⟨hr, -⟩⟩ <;> cases hr
    · exact hloading i k' handle hpin
  | release i hpins hbackend =>
    refine ⟨hbackend ▸ h.nodup, fun i' k handle hpin => hloading i' k handle ?_, hbackend ▸ hold⟩
    rw [hpins]
    exact Multiset.mem_add.mpr (.inr hpin)
  | submitLoad k i handle rest hpins hpins' hfresh hbackend =>
    obtain ⟨hnd, hres⟩ := happ ⟨handle, .load, [(k, i)], none, false⟩ hfresh rfl
    refine ⟨hbackend ▸ hnd, fun i' k' handle' hpin => ?_, hbackend ▸ hres⟩
    rw [hpins', Multiset.mem_add, Multiset.mem_singleton] at hpin
    rcases hpin with hpin | hpin
    · cases hpin
      rw [hbackend]
      exact ⟨_, List.mem_append_right _ (List.mem_singleton_self _), rfl, rfl, rfl⟩
    · refine hloading i' k' handle' ?_
      rw [hpins]
      exact Multiset.mem_add.mpr (.inr hpin)
  | submitDump handle shards hpins hfresh hbackend =>
    obtain ⟨hnd, hres⟩ := happ ⟨handle, .dump, shards, none, false⟩ hfresh rfl
    exact ⟨hbackend ▸ hnd, hpins ▸ hloading, hbackend ▸ hres⟩
  | waitLoad k i handle r rest hrole hpins hpins' hbackend =>
    refine ⟨?_, fun i' k' handle' hpin => ?_, hbackend ▸ (hwaited handle).2⟩
    · rw [hbackend, (hwaited handle).1]
      exact h.nodup
    · rw [hpins', Multiset.mem_add, Multiset.mem_singleton] at hpin
      rcases hpin with hpin | hpin
      · cases hpin
        rcases hrole with hr | ⟨hr, -⟩ <;> cases hr
      · refine hloading i' k' handle' ?_
        rw [hpins]
        exact Multiset.mem_add.mpr (.inr hpin)
  | waitDump handle hpins hbackend =>
    refine ⟨?_, hpins ▸ hloading, hbackend ▸ (hwaited handle).2⟩
    rw [hbackend, (hwaited handle).1]
    exact h.nodup
  | finish handle ok hact hpins hbackend =>
    refine ⟨?_, hpins ▸ hloading, fun b hb h1 h2 => ?_⟩
    · rw [hbackend, markFinished, List.map_map]
      refine (List.map_congr_left fun b _ => ?_ : _ = q.backend.map BackendTask.handle) ▸ h.nodup
      simp only [Function.comp_apply]
      split_ifs <;> rfl
    · rw [hbackend] at hb
      obtain ⟨b0, hb0, rfl⟩ := List.mem_map.mp hb
      split_ifs at h1 h2 ⊢ with hh
      · obtain rfl : ok = true := Option.some.inj h2
        exact fun x hx => hsub (hfinish handle hact b0 hb0 hh h1 x hx)
      · exact hold b0 hb0 h1 h2
  | abandon k i handle rest habandon hi hpins hpins' hbackend =>
    refine ⟨hbackend ▸ h.nodup, fun i' k' handle' hpin => ?_, hbackend ▸ hold⟩
    rw [hpins', Multiset.mem_add, Multiset.mem_singleton] at hpin
    rcases hpin with hpin | hpin
    · cases hpin
    · refine hloading i' k' handle' ?_
      rw [hpins]
      exact Multiset.mem_add.mpr (.inr hpin)

theorem BackendInv.waitBackend {i handle : Nat} (h : BackendInv stored q)
    (hpin : (i, .loading k handle) ∈ q.pins) (hw : q.waitBackend handle = some (true, q')) :
    k ∈ stored := by
  obtain ⟨b, hb, hhandle, htype, hsh⟩ := h.loading i k handle hpin
  unfold Proc.waitBackend at hw
  cases hf : q.backend.find? (·.handle = handle) with
  | none => simp [hf] at hw
  | some b' =>
    have hb' := List.mem_of_find?_eq_some hf
    have hhandle' : b'.handle = handle := by simpa using List.find?_some hf
    obtain rfl : b' = b := List.inj_on_of_nodup_map h.nodup hb' hb (hhandle'.trans hhandle.symm)
    simp only [hf] at hw
    cases hr : b'.result with
    | none => simp [hr] at hw
    | some r =>
      simp only [hr, Option.some.injEq, Prod.mk.injEq, Bool.and_eq_true] at hw
      refine h.stored b' hb htype (by rw [hr, hw.1.1]) (k, i) ?_
      rw [hsh]
      exact List.mem_singleton_self _

/-! ## The whole store -/

theorem ProcStep.dispatch (h : ProcStep cfg env buf stored q act buf' stored' q') :
    (act = .dumpDispatcher ∧ q.dumpDispatcher cfg env buf = some (buf', q')) ∨
      q'.dump.dispatch = q.dump.dispatch := by
  cases h with
  | submit type desc ph =>
    right
    unfold Proc.submit
    cases type <;> dsimp only <;> split_ifs <;> rfl
  | waitBegin | waitTimeout | waitReturn => exact .inr rfl
  | loadDispatcher h => exact .inr (by rw [(loadDispatcher_tasks h).1.dump])
  | loadTransfer h => exact .inr (by rw [(loadTransfer_tasks h).1.dump])
  | dumpDispatcher h => exact .inl ⟨rfl, h⟩
  | dumper h => exact .inr (dumper_frame h).2.2.2.1
  | backendFinish h =>
    obtain ⟨rfl, -⟩ := backendFinish_eq_some h
    exact .inr rfl

theorem ProcStep.markReady (h : ProcStep cfg env buf stored q act buf' stored' q') {st : ShardTask}
    (hst : q'.load.transfer = .markReady st) :
    q.load.transfer = .markReady st ∨ q.load.transfer = .waitBackend st ∧
      ∃ q1, q.waitBackend st.backendTaskHandle = some (true, q1) := by
  cases h with
  | submit type desc ph =>
    left
    unfold Proc.submit at hst
    cases type <;> dsimp only at hst <;> split_ifs at hst <;> exact hst
  | waitBegin | waitTimeout | waitReturn => exact .inl hst
  | loadDispatcher h => exact .inl ((loadDispatcher_tasks h).2 ▸ hst)
  | loadTransfer h => exact .inr ((loadTransfer_tasks h).2 st hst)
  | dumpDispatcher h => exact .inl ((dumpDispatcher_task h).1 ▸ hst)
  | dumper h => exact .inl ((dumper_frame h).2.1 ▸ hst)
  | backendFinish h =>
    obtain ⟨rfl, -⟩ := backendFinish_eq_some h
    exact .inl hst

theorem ProcStep.finish (h : ProcStep cfg env buf stored q act buf' stored' q')
    (hnd : (q.backend.map BackendTask.handle).Nodup) (handle : Nat)
    (hact : act = .backendFinish handle true) (b : BackendTask) (hb : b ∈ q.backend)
    (hh : b.handle = handle) (htype : b.type = .load) : ∀ x ∈ b.shards, x.1 ∈ stored := by
  subst hact
  cases h with
  | backendFinish h =>
    obtain ⟨-, -, b', hf, hload⟩ := backendFinish_eq_some h
    have hh' : b'.handle = handle := by simpa using List.find?_some hf
    obtain rfl : b' = b :=
      List.inj_on_of_nodup_map hnd (List.mem_of_find?_eq_some hf) hb (hh'.trans hh.symm)
    exact hload rfl htype

theorem Effect.marks (he : Effect cfg env act buf q buf' q')
    (hrep : ∃ chain, TransBuffer.RepInv cfg.buffer buf chain) {i : Nat}
    (h : buf'.ready i = true) : buf.ready i = true ∨ ∃ k, q.marks act = some (i, k) := by
  obtain ⟨chain, hrep⟩ := hrep
  cases he with
  | retag hbuf hpins hbackend =>
    rcases hbuf with rfl | ⟨⟨j, k⟩, hm, rfl⟩
    · exact .inl h
    · by_cases hij : i = j
      · exact .inr ⟨k, hij ▸ hm⟩
      · rw [TransBuffer.ready, TransBuffer.markReady, TransBuffer.modify_metaAt_ne _ _ hij] at h
        exact .inl h
  | search k allowReserved hget hpins hbackend
  | get k allowReserved hd r hget hrole hpins hbackend =>
    have hg := (hrep.get k.1 k.2 allowReserved env.tryLocks).2
    rw [hget] at hg
    exact .inl (hg.ready_of_ready h)
  | release j hpins hbackend =>
    have hready : ((buf.release j).pool i).ready = true := h
    rw [TransBuffer.release_pool, Pool.unpin_ready] at hready
    exact .inl hready
  | submitLoad => exact .inl h
  | submitDump => exact .inl h
  | waitLoad => exact .inl h
  | waitDump => exact .inl h
  | finish => exact .inl h
  | abandon => exact .inl h

theorem ProcStep.dumpTasks {saved saved' : Key → Prop}
    (h : ProcStep cfg env buf stored q act buf' stored' q') (ht : DumpTasks saved q)
    (hmono : ∀ k, saved k → saved' k) (hcol : ∀ k ∈ q'.dump.dispatch.collected, saved' k)
    (hskip : ∀ k hd buf1, q.dumpGet act = some k →
      buf.get cfg.buffer k.1 k.2 false env.tryLocks = (some hd, buf1) → hd.owner = false →
      saved' k) : DumpTasks saved' q' := by
  cases h with
  | submit type desc ph => exact ht.submit hmono type desc ph
  | waitBegin h =>
    unfold Tasks.waitBegin at h
    split_ifs at h with hw
    cases h
    exact ht.waits hmono rfl rfl rfl subset_rfl rfl (by simp [hw]) (by simp)
  | waitTimeout h =>
    unfold Tasks.waitTimeout at h
    split_ifs at h with hw
    cases h
    exact ht.waits hmono rfl rfl rfl (Finset.subset_insert _ _) rfl (by simp [hw.1]) (by simp)
  | waitReturn h => exact ht.waitReturn hmono h
  | loadDispatcher h => exact ht.loadTasks hmono (loadDispatcher_tasks h).1
  | loadTransfer h => exact ht.loadTasks hmono (loadTransfer_tasks h).1
  | dumpDispatcher h =>
    obtain ⟨hload, hstep⟩ := dumpDispatcher_task h
    have hprog := ht.progress.mono hmono fun _ _ hm => hm
    exact ht.dumpDispatcher hmono hload hstep (dumpDispatcher_progress h hprog hcol hskip)
  | dumper h =>
    obtain ⟨h1, h2, h3, h4, -⟩ := dumper_frame h
    exact ht.same hmono h4 h3 h2 h1
  | backendFinish h =>
    obtain ⟨rfl, -⟩ := backendFinish_eq_some h
    exact ht.same hmono rfl rfl rfl rfl

section Global

variable {n : Nat} {s s' : State n} {e : Event n}

theorem submitted_step (h : s.step cfg e = some s') (hk : s.Submitted k) :
    s'.Submitted k := by
  obtain ⟨q', hprocs, he, -⟩ := step_effect h
  obtain ⟨p, b, hb, htype, hmem⟩ := hk
  by_cases hp : p = e.p
  · subst hp
    obtain ⟨b', hb', -, h2, h3⟩ := he.mem_backend hb
    refine ⟨e.p, b', ?_, h2.trans htype, h3 ▸ hmem⟩
    rw [hprocs, update_self]
    exact hb'
  · refine ⟨p, b, ?_, htype, hmem⟩
    rw [hprocs, update_of_ne hp]
    exact hb

theorem collected_step (hC : DumpFindsSaved cfg s e) (h : s.step cfg e = some s') {p : Fin n}
    (hk : k ∈ (s.procs p).dump.dispatch.collected) :
    s'.Submitted k ∨ k ∈ (s'.procs p).dump.dispatch.collected ∧
      (s'.procs p).dump.dispatch.remaining ≤ (s.procs p).dump.dispatch.remaining ∧
      (DumpAdvances p s s' →
        (s'.procs p).dump.dispatch.remaining < (s.procs p).dump.dispatch.remaining) := by
  have hsame : (s'.procs p).dump.dispatch = (s.procs p).dump.dispatch →
      s'.Submitted k ∨ k ∈ (s'.procs p).dump.dispatch.collected ∧
      (s'.procs p).dump.dispatch.remaining ≤ (s.procs p).dump.dispatch.remaining ∧
      (DumpAdvances p s s' →
        (s'.procs p).dump.dispatch.remaining < (s.procs p).dump.dispatch.remaining) :=
    fun heq => .inr ⟨heq ▸ hk, by rw [heq], fun ha => absurd heq ha⟩
  obtain ⟨q', hprocs, hps⟩ := step_proc h
  by_cases hp : p = e.p
  · subst hp
    have hq' : s'.procs e.p = q' := by rw [hprocs, update_self]
    rcases hps.dispatch with ⟨hact, hd⟩ | hdisp
    · have hok := hC.1
      rw [hact] at hok
      rcases dumpDispatcher_collected hd hok hk with hsub | ⟨hcol, heq | hlt⟩
      · exact .inl ⟨e.p, hq' ▸ hsub⟩
      · exact hsame (hq' ▸ heq)
      · rw [hq']
        exact .inr ⟨hcol, Nat.le_of_lt hlt, fun _ => hlt⟩
    · exact hsame (hq' ▸ hdisp)
  · refine hsame ?_
    rw [hprocs, update_of_ne hp]

theorem saved_step (hC : DumpFindsSaved cfg s e) (h : s.step cfg e = some s') (hk : s.Saved k) :
    s'.Saved k := by
  obtain ⟨q', hprocs, -, hstored⟩ := step_effect h
  rcases hk with hk | hk | ⟨p, hk⟩
  · exact .inl (hstored hk)
  · exact .inr (.inl (submitted_step h hk))
  · rcases collected_step hC h hk with hsub | ⟨hcol, -⟩
    · exact .inr (.inl hsub)
    · exact .inr (.inr ⟨p, hcol⟩)

/-- The invariant of the runs in which dumps succeed. -/
structure SavedInv (cfg : Config) (s : State n) : Prop where
  store : StoreInv cfg s
  backend : ∀ p, BackendInv s.stored (s.procs p)
  loaded : ∀ p st, (s.procs p).load.transfer = .markReady st → st.shard.key ∈ s.stored
  /-- What is ready is saved. -/
  ready : ∀ i k, (s.buf.pool i).key = some k → s.buf.ready i = true → s.Saved k
  tasks : ∀ p, DumpTasks s.Saved (s.procs p)

theorem SavedInv.marks (h : SavedInv cfg s) {p : Fin n} {act : Action} {i : Nat}
    (hm : (s.procs p).marks act = some (i, k)) : (s.buf.pool i).key = some k ∧ s.Saved k := by
  cases act with
  | loadTransfer =>
    cases hpc : (s.procs p).load.transfer with
    | markReady st =>
      simp only [Proc.marks, hpc, Option.some.injEq, Prod.mk.injEq] at hm
      obtain ⟨rfl, rfl⟩ := hm
      refine ⟨h.store.pinned.key_eq (st.bufferHandle.pos, .fill st.shard.key) ?_ _ rfl,
        .inl (h.loaded p st hpc)⟩
      refine mem_pins (p := p) ?_
      rw [pins_loadTransfer, hpc]
      exact Multiset.mem_add.mpr (.inl (List.mem_singleton_self _))
    | _ => simp [Proc.marks, hpc] at hm
  | dumpDispatcher =>
    cases hpc : (s.procs p).dump.dispatch with
    | markReady task acc todo =>
      cases todo with
      | nil => simp [Proc.marks, hpc] at hm
      | cons x todo =>
        simp only [Proc.marks, hpc, Option.some.injEq, Prod.mk.injEq] at hm
        obtain ⟨rfl, rfl⟩ := hm
        have hprog := (h.tasks p).progress
        rw [hpc] at hprog
        have hx : x ∈ acc := hprog.1 List.mem_cons_self
        refine ⟨h.store.pinned.key_eq (fillPin x) ?_ _ rfl, .inr (.inr ⟨p, ?_⟩)⟩
        · refine mem_pins (p := p) ?_
          rw [pins_dumpDispatch, hpc]
          refine Multiset.mem_add.mpr (.inl (List.mem_map.mpr ⟨x, hx, ?_⟩))
          rw [if_pos List.mem_cons_self]
        · rw [hpc]
          exact List.mem_map_of_mem hx
    | _ => simp [Proc.marks, hpc] at hm
  | _ => cases hm

theorem SavedInv.skipped (h : SavedInv cfg s) (hC : DumpFindsSaved cfg s e) {hd : Handle}
    {buf1 : TransBuffer} (hget : (s.procs e.p).dumpGet e.act = some k)
    (hg : s.buf.get cfg.buffer k.1 k.2 false e.env.tryLocks = (some hd, buf1))
    (ho : hd.owner = false) : s.Saved k := by
  obtain ⟨chain, hrep⟩ := h.store.rep
  have hpool := (hrep.get k.1 k.2 false e.env.tryLocks).2
  rw [hg, Option.map_some, ho] at hpool
  obtain ⟨hkey, href⟩ := hpool.hit_of_not_owner
  rcases hC.2 k hget hd.pos ((TransBuffer.pool_key_iff _ _ _ _).mp hkey) href with hr | hs | hc
  · exact h.ready hd.pos k hkey hr
  · exact .inl hs
  · exact .inr (.inr hc)

theorem savedInv_step (h : SavedInv cfg s) (hC : DumpFindsSaved cfg s e)
    (hstep : s.step cfg e = some s') : SavedInv cfg s' := by
  have hsaved : ∀ k, s.Saved k → s'.Saved k := fun k => saved_step hC hstep
  obtain ⟨q', hprocs, hps⟩ := step_proc hstep
  obtain ⟨he, hstored⟩ := hps.effect
  refine ⟨storeInv_step h.store hstep, ?_, ?_, fun i k hk hready => ?_, ?_⟩
  · rw [hprocs, Function.forall_update_iff s.procs fun _ q => BackendInv s'.stored q]
    exact ⟨he.backendInv (h.backend e.p) hstored (hps.finish (h.backend e.p).nodup),
      fun p _ => ⟨(h.backend p).nodup, (h.backend p).loading,
        fun b hb h1 h2 x hx => hstored ((h.backend p).stored b hb h1 h2 x hx)⟩⟩
  · rw [hprocs, Function.forall_update_iff s.procs fun _ q =>
      ∀ st, q.load.transfer = .markReady st → st.shard.key ∈ s'.stored]
    refine ⟨fun st hst => hstored ?_, fun p _ st hst => hstored (h.loaded p st hst)⟩
    rcases hps.markReady hst with hst | ⟨hpc, q1, hw⟩
    · exact h.loaded e.p st hst
    · refine (h.backend e.p).waitBackend (i := st.bufferHandle.pos) ?_ hw
      rw [pins_loadTransfer, hpc]
      exact Multiset.mem_add.mpr (.inl (List.mem_singleton_self _))
  · rcases he.key_cases h.store.rep hk with ⟨hk0, -⟩ | ⟨-, hnot⟩
    · rcases he.marks h.store.rep hready with hr | ⟨k', hm⟩
      · exact hsaved k (h.ready i k hk0 hr)
      · obtain ⟨hk', hs⟩ := h.marks hm
        rw [hk0] at hk'
        cases hk'
        exact hsaved k hs
    · rw [TransBuffer.pool_ready] at hnot
      rw [TransBuffer.ready, hnot] at hready
      cases hready
  · rw [hprocs, Function.forall_update_iff s.procs fun _ q => DumpTasks s'.Saved q]
    refine ⟨hps.dumpTasks (h.tasks e.p) hsaved (fun k hk => .inr (.inr ⟨e.p, ?_⟩))
      fun k hd buf1 hget hg ho => hsaved k (h.skipped hC hget hg ho),
      fun p _ => (h.tasks p).same hsaved rfl rfl rfl rfl⟩
    rw [hprocs, update_self]
    exact hk

theorem savedInv_reach (h : (storeMachine cfg n).Reach (DumpFindsSaved cfg) s) : SavedInv cfg s := by
  refine h.inv (fun s hs => ?_) fun s e s' hs hC hstep => savedInv_step hs hC hstep
  refine ⟨storeInv_init hs, fun p => ?_, fun p st hst => ?_, fun i k hk _ => ?_, fun p => ?_⟩
  · rw [hs.2 p]
    exact ⟨List.nodup_nil, fun _ _ _ h => absurd h (Multiset.notMem_zero _),
      fun _ h => absurd h List.not_mem_nil⟩
  · rw [hs.2 p] at hst
    cases hst
  · rw [hs.1] at hk
    cases hk
  · rw [hs.2 p]
    exact
      { lt := fun _ h => absurd h List.not_mem_nil
        unique := fun _ h => absurd h List.not_mem_nil
        load := fun _ h => absurd h List.not_mem_nil
        busy := fun _ h => absurd h List.not_mem_nil
        nodup := List.nodup_nil
        finished := fun _ h => absurd h List.not_mem_nil
        progress := trivial }

/-- A dump of a shard that is being loaded and not stored: the dump skips it and is done, and then the
load fails. -/
def lostTrace : List (Event 1) :=
  ⟨proc, .submit .load [⟨7, 0, [100]⟩] 0, {}⟩ ::
    [⟨proc, .loadDispatcher, {}⟩, ⟨proc, .loadDispatcher, {}⟩,
      ⟨proc, .loadDispatcher, { tryLocks := [true] }⟩, ⟨proc, .loadDispatcher, {}⟩,
      ⟨proc, .loadDispatcher, { handle := some 1 }⟩, ⟨proc, .loadDispatcher, {}⟩,
      ⟨proc, .loadDispatcher, {}⟩, ⟨proc, .submit .dump [⟨7, 0, [200]⟩] 0, {}⟩] ++
    List.replicate 6 ⟨proc, .dumpDispatcher, {}⟩ ++
    [⟨proc, .waitBegin 2, {}⟩, ⟨proc, .waitReturn 2, {}⟩, ⟨proc, .backendFinish 1 false, {}⟩] ++
    List.replicate 6 ⟨proc, .loadTransfer, {}⟩

/-- A dump of a shard that nobody holds. -/
def dumpTrace : List (Event 1) :=
  ⟨proc, .submit .dump [⟨7, 0, [200]⟩] 0, {}⟩ ::
    [⟨proc, .dumpDispatcher, {}⟩, ⟨proc, .dumpDispatcher, {}⟩,
      ⟨proc, .dumpDispatcher, { tryLocks := [true] }⟩, ⟨proc, .dumpDispatcher, {}⟩,
      ⟨proc, .dumpDispatcher, {}⟩, ⟨proc, .dumpDispatcher, {}⟩, ⟨proc, .dumpDispatcher, {}⟩,
      ⟨proc, .dumpDispatcher, {}⟩, ⟨proc, .dumpDispatcher, {}⟩,
      ⟨proc, .dumpDispatcher, { handle := some 1 }⟩, ⟨proc, .dumpDispatcher, {}⟩,
      ⟨proc, .dumpDispatcher, {}⟩, ⟨proc, .waitBegin 1, {}⟩, ⟨proc, .waitReturn 1, {}⟩]

/-- The first process has collected the shard, and a second one dumps it too. -/
def twoDumpsTrace : List (Event 2) :=
  [⟨0, .submit .dump [⟨7, 0, [200]⟩] 0, {}⟩, ⟨0, .dumpDispatcher, {}⟩, ⟨0, .dumpDispatcher, {}⟩,
    ⟨0, .dumpDispatcher, { tryLocks := [true] }⟩, ⟨0, .dumpDispatcher, {}⟩, ⟨0, .dumpDispatcher, {}⟩,
    ⟨1, .submit .dump [⟨7, 0, [300]⟩] 0, {}⟩, ⟨1, .dumpDispatcher, {}⟩, ⟨1, .dumpDispatcher, {}⟩,
    ⟨1, .dumpDispatcher, { tryLocks := [true] }⟩, ⟨1, .dumpDispatcher, {}⟩, ⟨1, .dumpDispatcher, {}⟩,
    ⟨1, .dumpDispatcher, {}⟩, ⟨1, .waitBegin 1, {}⟩, ⟨1, .waitReturn 1, {}⟩]

end Global

end UnifiedCache.Cache
