import UnifiedCache.Sparse.RetrieveTask
import Mathlib.Data.List.Nodup

/-!
# Proofs: retrieval tasks

Every task that has been submitted is in one place: in the queue it was pushed to, with the worker
of that queue, or over (`TasksInv`). The queue of a task is known from its id. So each task is
executed once, and what its result is in the end was written by that execution and by its worker.
-/

open Function Lib

namespace UnifiedCache.Sparse.Retrieve

variable {n q c id : Nat} {s s' : State} {e : Event} {t : Task} {tasks tasks' : Nat → Task}
  {pc pc' : WorkerPc} {outcome : Outcome} {status : Status}

/-! ## The invariant -/

/-- A task that has not been executed. -/
structure Task.Unexecuted (t : Task) : Prop where
  counter : t.counter = 1
  result : t.result.isSome
  executions : t.executions = []

/-- The result of a task has the indices of its only execution. -/
def Task.Recorded (t : Task) : Prop := ∃ outcome result, t.executions = [outcome] ∧
  t.result = some result ∧ ∀ topkIndices, outcome = .completed topkIndices →
    result.topkIndices = topkIndices

/-- The worker has had the last word on the status. -/
def Task.Succeeded (t : Task) : Prop := ∃ result, t.result = some result ∧ result.status = .success

/-- A task whose latch is open. -/
structure Task.Over (t : Task) : Prop where
  counter : t.counter = 0
  recorded : t.Recorded
  succeeded : t.Succeeded

/-- What holds of the task of a worker. -/
def WorkerOk (tasks : Nat → Task) : WorkerPc → Prop
  | .waiting => True
  | .popped id | .checking id | .executing id => (tasks id).Unexecuted
  | .catching id _ => (tasks id).counter = 1 ∧ (tasks id).Recorded
  | .ran id status => status = .ok ∧ (tasks id).counter = 1 ∧ (tasks id).Recorded
  | .inserted _ => False
  | .finishing id => (tasks id).counter = 1 ∧ (tasks id).Recorded ∧ (tasks id).Succeeded

/-- What holds of the task that a caller waits for. -/
def CallerOk (s : State) : WaitPc → Prop
  | .idle => True
  | .latch id => id ∈ s.submitted
  | .exist id => id ∈ s.submitted ∧ (s.tasks id).Over
  | .remove id failure => id ∈ s.submitted ∧ (s.tasks id).Over ∧ failure = false

/-- The tasks of a queue and its worker. -/
def State.held (s : State) (q : Nat) : List Nat := (s.worker q).task.toList ++ s.taskQ q

/-- The invariant. -/
structure TasksInv (n : Nat) (s : State) : Prop where
  next : s.lastTimeScheduledQueueIdx = s.taskIdSeed % n
  submitted : s.submitted = List.range' 1 s.taskIdSeed
  nodup : ∀ q, (s.held q).Nodup
  /-- Tasks are pushed to the queues in turn. -/
  place : ∀ q, ∀ id ∈ s.held q, id ∈ s.submitted ∧ (id - 1) % n = q
  fresh : ∀ id, id ∉ s.submitted → s.waiters id = false ∧ s.tasks id = ⟨0, none, []⟩
  queued : ∀ q, ∀ id ∈ s.taskQ q, (s.tasks id).Unexecuted
  worker : ∀ q, WorkerOk s.tasks (s.worker q)
  ended : ∀ id ∈ s.submitted, (∀ q, id ∉ s.held q) → (s.tasks id).Over
  /-- The runner never returns a failure. -/
  noFailure : s.failureSet = []
  caller : ∀ c, CallerOk s (s.caller c)
  waits : ∀ w ∈ s.waits, w.2 ≠ .notFound → w.2 = .ok ∧ w.1 ∈ s.submitted ∧ (s.tasks w.1).Over

theorem WorkerOk.counter (h : WorkerOk tasks pc) (hid : pc.task = some id) :
    (tasks id).counter = 1 := by
  cases pc with
  | waiting => cases hid
  | popped _ => cases hid; exact Task.Unexecuted.counter h
  | checking _ => cases hid; exact Task.Unexecuted.counter h
  | executing _ => cases hid; exact Task.Unexecuted.counter h
  | catching _ _ => cases hid; exact h.1
  | ran _ _ => cases hid; exact h.2.1
  | inserted _ => exact h.elim
  | finishing _ => cases hid; exact h.1

theorem WorkerOk.congr (h : WorkerOk tasks pc)
    (htasks : ∀ id, pc.task = some id → tasks' id = tasks id) : WorkerOk tasks' pc := by
  cases pc with
  | waiting => trivial
  | inserted _ => exact h.elim
  | _ =>
    simp only [WorkerOk] at h ⊢
    rw [htasks _ rfl]
    exact h

theorem CallerOk.mono {pc : WaitPc} (h : CallerOk s pc)
    (hsubmitted : ∀ id ∈ s.submitted, id ∈ s'.submitted)
    (hover : ∀ id, (s.tasks id).Over → (s'.tasks id).Over) : CallerOk s' pc := by
  cases pc with
  | idle => trivial
  | latch id => exact hsubmitted id h
  | exist id => exact ⟨hsubmitted id h.1, hover id h.2⟩
  | remove id failure => exact ⟨hsubmitted id h.1, hover id h.2.1, h.2.2⟩

theorem mem_held_of_task (hid : (s.worker q).task = some id) : id ∈ s.held q := by
  unfold State.held
  rw [hid]
  exact List.mem_append_left _ (List.mem_singleton_self _)

theorem mem_held_of_taskQ (hid : id ∈ s.taskQ q) : id ∈ s.held q := List.mem_append_right _ hid

theorem TasksInv.counter (h : TasksInv n s) (hid : id ∈ s.held q) : (s.tasks id).counter = 1 := by
  rcases List.mem_append.mp hid with hid | hid
  · exact (h.worker q).counter (Option.mem_toList.mp hid)
  · exact (h.queued q id hid).counter

theorem TasksInv.not_over (h : TasksInv n s) (hid : id ∈ s.held q) : ¬ (s.tasks id).Over := by
  intro hover
  have hone := h.counter hid
  rw [hover.counter] at hone
  cases hone

theorem TasksInv.unique (h : TasksInv n s) {q' : Nat} (hid : id ∈ s.held q) (hid' : id ∈ s.held q') :
    q = q' := (h.place q id hid).2.symm.trans (h.place q' id hid').2

theorem TasksInv.not_queued (h : TasksInv n s) (hid : (s.worker q).task = some id) (q' : Nat) :
    id ∉ s.taskQ q' := by
  intro hmem
  have heq := h.unique (mem_held_of_task hid) (mem_held_of_taskQ hmem)
  subst heq
  have hnodup := h.nodup q
  unfold State.held at hnodup
  rw [hid] at hnodup
  exact (List.nodup_cons.mp hnodup).1 hmem

theorem WorkerOk.update {worker : Nat → WorkerPc} (hok : WorkerOk tasks pc)
    (hother : ∀ q' ≠ q, WorkerOk tasks (worker q')) (q' : Nat) :
    WorkerOk tasks (update worker q pc q') := by
  by_cases heq : q' = q
  · rw [heq, update_self]
    exact hok
  · rw [update_of_ne heq]
    exact hother q' heq

/-! ## Workers

A worker writes its own task only, and the rest of the invariant is about other tasks. -/

theorem TasksInv.over_frame (h : TasksInv n s) (hmem : id ∈ s.held q)
    (hframe : ∀ id' ≠ id, tasks id' = s.tasks id') (id' : Nat) (hover : (s.tasks id').Over) :
    (tasks id').Over := by
  rw [hframe]
  · exact hover
  · rintro rfl
    exact h.not_over hmem hover

theorem TasksInv.fresh_frame (h : TasksInv n s) (hmem : id ∈ s.held q)
    (hframe : ∀ id' ≠ id, tasks id' = s.tasks id') (id' : Nat) (hid' : id' ∉ s.submitted) :
    s.waiters id' = false ∧ tasks id' = ⟨0, none, []⟩ := by
  refine ⟨(h.fresh id' hid').1, (hframe id' ?_).trans (h.fresh id' hid').2⟩
  rintro rfl
  exact hid' (h.place q _ hmem).1

theorem TasksInv.queued_frame (h : TasksInv n s) (hid : (s.worker q).task = some id)
    (hframe : ∀ id' ≠ id, tasks id' = s.tasks id') (q' id' : Nat) (hid' : id' ∈ s.taskQ q') :
    (tasks id').Unexecuted := by
  have hne : id' ≠ id := by
    rintro rfl
    exact h.not_queued hid q' hid'
  rw [hframe id' hne]
  exact h.queued q' id' hid'

theorem TasksInv.worker_frame (h : TasksInv n s) (hmem : id ∈ s.held q)
    (hframe : ∀ id' ≠ id, tasks id' = s.tasks id') (q' : Nat) (hne : q' ≠ q) :
    WorkerOk tasks (s.worker q') := by
  refine (h.worker q').congr fun id' hid' => hframe id' ?_
  rintro rfl
  exact hne (h.unique (mem_held_of_task hid') hmem)

theorem TasksInv.waits_frame (h : TasksInv n s) (hmem : id ∈ s.held q)
    (hframe : ∀ id' ≠ id, tasks id' = s.tasks id') :
    ∀ w ∈ s.waits, w.2 ≠ .notFound → w.2 = .ok ∧ w.1 ∈ s.submitted ∧ (tasks w.1).Over := by
  intro w hw hfound
  obtain ⟨hok, hsub, hover⟩ := h.waits w hw hfound
  exact ⟨hok, hsub, h.over_frame hmem hframe w.1 hover⟩

theorem TasksInv.keep (h : TasksInv n s) (hid : (s.worker q).task = some id)
    (hpc : pc.task = some id) (hframe : ∀ id' ≠ id, tasks id' = s.tasks id')
    (hok : WorkerOk tasks pc) : TasksInv n ({ s with tasks := tasks }.setWorker q pc) := by
  have hheld : ∀ q', ({ s with tasks := tasks }.setWorker q pc).held q' = s.held q' := by
    intro q'
    unfold State.held State.setWorker
    dsimp only
    by_cases heq : q' = q
    · rw [heq, update_self, hpc, hid]
    · rw [update_of_ne heq]
  have hmem := mem_held_of_task hid
  have hover := h.over_frame hmem hframe
  exact
    { next := h.next
      submitted := h.submitted
      nodup := fun q' => by rw [hheld]; exact h.nodup q'
      place := fun q' => by rw [hheld]; exact h.place q'
      fresh := h.fresh_frame hmem hframe
      queued := h.queued_frame hid hframe
      worker := hok.update (h.worker_frame hmem hframe)
      ended := fun id' hid' hnot => hover id' (h.ended id' hid' fun q' => hheld q' ▸ hnot q')
      noFailure := h.noFailure
      caller := fun c => (h.caller c).mono (fun _ hsub => hsub) hover
      waits := h.waits_frame hmem hframe }

theorem TasksInv.release (h : TasksInv n s) (hid : (s.worker q).task = some id)
    (hframe : ∀ id' ≠ id, tasks id' = s.tasks id') (hover : (tasks id).Over) :
    TasksInv n ({ s with tasks := tasks }.setWorker q .waiting) := by
  have hheld : ∀ q' id', id' ∈ s.held q' ↔
      id' ∈ ({ s with tasks := tasks }.setWorker q .waiting).held q' ∨ q' = q ∧ id' = id := by
    intro q' id'
    unfold State.held State.setWorker
    dsimp only
    by_cases heq : q' = q
    · rw [heq, update_self, hid]
      simp only [Option.toList_some, List.singleton_append, List.mem_cons, WorkerPc.task,
        Option.toList_none, List.nil_append, true_and, or_comm]
    · rw [update_of_ne heq]
      simp only [heq, false_and, or_false]
  have hsublist : ∀ q', (({ s with tasks := tasks }.setWorker q .waiting).held q').Sublist
      (s.held q') := by
    intro q'
    unfold State.held State.setWorker
    dsimp only
    by_cases heq : q' = q
    · rw [heq, update_self, hid]
      exact List.sublist_cons_self _ _
    · rw [update_of_ne heq]
  have hmem := mem_held_of_task hid
  have hover' := h.over_frame hmem hframe
  refine
    { next := h.next
      submitted := h.submitted
      nodup := fun q' => (hsublist q').nodup (h.nodup q')
      place := fun q' id' hid' => h.place q' id' ((hsublist q').subset hid')
      fresh := h.fresh_frame hmem hframe
      queued := h.queued_frame hid hframe
      worker := WorkerOk.update trivial (h.worker_frame hmem hframe)
      ended := fun id' hid' hnot => ?_
      noFailure := h.noFailure
      caller := fun c => (h.caller c).mono (fun _ hsub => hsub) hover'
      waits := h.waits_frame hmem hframe }
  by_cases heq : id' = id
  · exact heq ▸ hover
  · refine hover' id' (h.ended id' hid' fun q' hq' => ?_)
    rcases (hheld q' id').mp hq' with hq' | ⟨-, hq'⟩
    · exact hnot q' hq'
    · exact heq hq'

theorem TasksInv.pop (h : TasksInv n s) (hpc : s.worker q = .waiting) {rest : List Nat}
    (hq : s.taskQ q = id :: rest) :
    TasksInv n ({ s with taskQ := update s.taskQ q rest }.setWorker q (.popped id)) := by
  have hheld : ∀ q', ({ s with taskQ := update s.taskQ q rest }.setWorker q
      (.popped id)).held q' = s.held q' := by
    intro q'
    unfold State.held State.setWorker
    dsimp only
    by_cases heq : q' = q
    · rw [heq, update_self, update_self, hpc, hq]
      rfl
    · rw [update_of_ne heq, update_of_ne heq]
  have hunexecuted := h.queued q id (hq ▸ List.mem_cons_self)
  refine
    { next := h.next
      submitted := h.submitted
      nodup := fun q' => by rw [hheld]; exact h.nodup q'
      place := fun q' => by rw [hheld]; exact h.place q'
      fresh := h.fresh
      queued := fun q' id' hid' => ?_
      worker := WorkerOk.update hunexecuted fun q' _ => h.worker q'
      ended := fun id' hid' hnot => h.ended id' hid' fun q' => hheld q' ▸ hnot q'
      noFailure := h.noFailure
      caller := h.caller
      waits := h.waits }
  have hid'' : id' ∈ update s.taskQ q rest q' := hid'
  by_cases heq : q' = q
  · rw [heq, update_self] at hid''
    exact h.queued q id' (hq ▸ List.mem_cons_of_mem _ hid'')
  · rw [update_of_ne heq] at hid''
    exact h.queued q' id' hid''

theorem update_frame (tasks : Nat → Task) (id : Nat) (t : Task) :
    ∀ id' ≠ id, update tasks id t id' = tasks id' :=
  fun _ hne => update_of_ne hne _ _

theorem Task.Recorded.setStatus (h : t.Recorded) (status : TaskStatus) :
    ({ t with
      result := t.result.map fun result => { result with status := status } } : Task).Recorded := by
  obtain ⟨outcome, result, hexec, hresult, hindices⟩ := h
  exact ⟨outcome, { result with status := status }, hexec, by rw [hresult]; rfl, hindices⟩

theorem TasksInv.work (h : TasksInv n s) (hstep : s.work q outcome = some s') : TasksInv n s' := by
  have hok := h.worker q
  unfold State.work at hstep
  split at hstep
  · -- waiting
    next hpc =>
    split at hstep
    · cases hstep
    · next id rest hq =>
      cases hstep
      exact h.pop hpc hq
  · -- popped
    next id hpc =>
    cases hstep
    rw [hpc] at hok
    refine h.keep (by rw [hpc]; rfl) rfl (update_frame _ _ _) ?_
    simp only [WorkerOk, update_self] at hok ⊢
    exact ⟨hok.counter, by rw [Option.isSome_map]; exact hok.result, hok.executions⟩
  · -- checking
    next id hpc =>
    cases hstep
    rw [hpc] at hok
    rw [h.noFailure, if_neg List.not_mem_nil]
    exact h.keep (by rw [hpc]; rfl) rfl (fun _ _ => rfl) hok
  · -- executing
    next id hpc =>
    cases hstep
    rw [hpc] at hok
    simp only [WorkerOk] at hok
    obtain ⟨result, hresult⟩ := Option.isSome_iff_exists.mp hok.result
    unfold State.execute
    cases outcome with
    | completed topkIndices =>
      refine h.keep (by rw [hpc]; rfl) rfl (fun id' hne => ?_) ?_
      · dsimp only
        rw [update_of_ne hne, update_of_ne hne]
      · simp only [WorkerOk, update_self]
        refine ⟨trivial, hok.counter, .completed topkIndices, _, ?_, by rw [hresult]; rfl, ?_⟩
        · rw [hok.executions]
          rfl
        · intro topkIndices' heq
          cases heq
          rfl
    | thrown what =>
      refine h.keep (by rw [hpc]; rfl) rfl (update_frame _ _ _) ?_
      simp only [WorkerOk, update_self]
      refine ⟨hok.counter, .thrown what, result, ?_, hresult, fun _ heq => ?_⟩
      · rw [hok.executions]
        rfl
      · cases heq
  · -- catching
    next id what hpc =>
    cases hstep
    rw [hpc] at hok
    simp only [WorkerOk] at hok
    obtain ⟨hcounter, outcome, result, hexec, hresult, hindices⟩ := hok
    refine h.keep (by rw [hpc]; rfl) rfl (update_frame _ _ _) ?_
    simp only [WorkerOk, update_self]
    exact ⟨trivial, hcounter, outcome, { result with errorMessage := what, status := .failure },
      hexec, by rw [hresult]; rfl, hindices⟩
  · -- ran
    next id status hpc =>
    rw [hpc] at hok
    simp only [WorkerOk] at hok
    obtain ⟨rfl, hcounter, hrecorded⟩ := hok
    rw [if_neg (not_not_intro rfl)] at hstep
    cases hstep
    refine h.keep (by rw [hpc]; rfl) rfl (update_frame _ _ _) ?_
    simp only [WorkerOk, update_self]
    refine ⟨hcounter, hrecorded.setStatus .success, ?_⟩
    obtain ⟨outcome, result, hexec, hresult, hindices⟩ := hrecorded
    exact ⟨_, by rw [hresult]; rfl, rfl⟩
  · -- inserted
    next id hpc =>
    rw [hpc] at hok
    exact hok.elim
  · -- finishing
    next id hpc =>
    cases hstep
    rw [hpc] at hok
    simp only [WorkerOk] at hok
    obtain ⟨hcounter, hrecorded, hsucceeded⟩ := hok
    refine h.release (by rw [hpc]; rfl) (update_frame _ _ _) ?_
    rw [update_self]
    exact ⟨by rw [hcounter], hrecorded, hsucceeded⟩

/-! ## Submitters and waiters -/

theorem TasksInv.mem_submitted (h : TasksInv n s) :
    id ∈ s.submitted ↔ 1 ≤ id ∧ id ≤ s.taskIdSeed := by
  rw [h.submitted, List.mem_range'_1]
  omega

theorem TasksInv.submit (h : TasksInv n s) : TasksInv n (s.submitSingleTask n) := by
  have hnew : s.taskIdSeed + 1 ∉ s.submitted := by
    rw [h.mem_submitted]
    omega
  obtain ⟨hwaiter, htask⟩ := h.fresh _ hnew
  have hfree : ¬(s.waiters (s.taskIdSeed + 1) = true ∨
      (s.tasks (s.taskIdSeed + 1)).result.isSome = true) := by
    rw [hwaiter, htask]
    exact fun hor => hor.elim nofun nofun
  have hqueue : (s.taskIdSeed + 1 - 1) % n = s.lastTimeScheduledQueueIdx := by
    rw [Nat.add_sub_cancel, h.next]
  have hnotheld : ∀ q, s.taskIdSeed + 1 ∉ s.held q := fun q hmem => hnew (h.place q _ hmem).1
  unfold State.submitSingleTask
  dsimp only
  rw [if_neg hfree]
  have hother : ∀ id, (s.tasks id).Over → (update s.tasks (s.taskIdSeed + 1)
      { s.tasks (s.taskIdSeed + 1) with counter := 1, result := some ⟨.pending, [], ""⟩ } id).Over := by
    intro id hover
    rw [update_of_ne]
    · exact hover
    · rintro rfl
      rw [htask] at hover
      obtain ⟨-, ⟨outcome, result, hexec, -⟩, -⟩ := hover
      cases hexec
  have hheld : ∀ q, (s.worker q).task.toList ++ update s.taskQ s.lastTimeScheduledQueueIdx
      (s.taskQ s.lastTimeScheduledQueueIdx ++ [s.taskIdSeed + 1]) q = s.held q ++
        if q = s.lastTimeScheduledQueueIdx then [s.taskIdSeed + 1] else [] := by
    intro q
    unfold State.held
    split_ifs with heq
    · rw [heq, update_self, List.append_assoc]
    · rw [update_of_ne heq, List.append_nil]
  refine
    { next := ?_
      submitted := ?_
      nodup := fun q => ?_
      place := fun q id hid => ?_
      fresh := fun id hid => ?_
      queued := fun q id hid => ?_
      worker := fun q => ?_
      ended := fun id hid hnot => ?_
      noFailure := h.noFailure
      caller := fun c => (h.caller c).mono (fun _ hsub => List.mem_append_left _ hsub) hother
      waits := fun w hw hfound => ?_ }
  · show (s.lastTimeScheduledQueueIdx + 1) % n = (s.taskIdSeed + 1) % n
    rw [h.next, Nat.mod_add_mod]
  · show s.submitted ++ [s.taskIdSeed + 1] = List.range' 1 (s.taskIdSeed + 1)
    rw [h.submitted, List.range'_1_concat, Nat.add_comm 1]
  · show (State.held _ q).Nodup
    refine (congrArg List.Nodup (hheld q)).mpr ?_
    split_ifs
    · refine List.nodup_append.mpr ⟨h.nodup q, List.nodup_singleton _, fun x hx y hy heq => ?_⟩
      rw [heq, List.mem_singleton.mp hy] at hx
      exact hnotheld q hx
    · rw [List.append_nil]
      exact h.nodup q
  · have hid' : id ∈ s.held q ++ if q = s.lastTimeScheduledQueueIdx then [s.taskIdSeed + 1] else [] :=
      hheld q ▸ hid
    rcases List.mem_append.mp hid' with hold | hnew'
    · exact ⟨List.mem_append_left _ (h.place q id hold).1, (h.place q id hold).2⟩
    · split_ifs at hnew' with heq
      · rw [List.mem_singleton.mp hnew', heq]
        exact ⟨List.mem_append_right _ (List.mem_singleton_self _), hqueue⟩
      · cases hnew'
  · have hne : id ≠ s.taskIdSeed + 1 := by
      rintro rfl
      exact hid (List.mem_append_right _ (List.mem_singleton_self _))
    dsimp only
    rw [update_of_ne hne, update_of_ne hne]
    exact h.fresh id fun hsub => hid (List.mem_append_left _ hsub)
  · show (update s.tasks _ _ id).Unexecuted
    by_cases hne : id = s.taskIdSeed + 1
    · rw [hne, update_self, htask]
      exact ⟨rfl, rfl, rfl⟩
    · rw [update_of_ne hne]
      have hid' : id ∈ update s.taskQ s.lastTimeScheduledQueueIdx
          (s.taskQ s.lastTimeScheduledQueueIdx ++ [s.taskIdSeed + 1]) q := hid
      refine h.queued q id ?_
      by_cases heq : q = s.lastTimeScheduledQueueIdx
      · rw [heq, update_self] at hid'
        rcases List.mem_append.mp hid' with hold | hnew'
        · exact heq ▸ hold
        · exact absurd (List.mem_singleton.mp hnew') hne
      · rw [update_of_ne heq] at hid'
        exact hid'
  · refine (h.worker q).congr fun id hid => update_of_ne ?_ _ _
    rintro rfl
    exact hnotheld q (mem_held_of_task hid)
  · rcases List.mem_append.mp hid with hid | hid
    · exact hother id (h.ended id hid fun q hq =>
        hnot q ((congrArg (id ∈ ·) (hheld q)).mpr (List.mem_append_left _ hq)))
    · refine absurd ?_ (hnot s.lastTimeScheduledQueueIdx)
      refine (congrArg (id ∈ ·) (hheld s.lastTimeScheduledQueueIdx)).mpr (List.mem_append_right _ ?_)
      rw [if_pos rfl]
      exact hid
  · obtain ⟨hok, hsub, hover⟩ := h.waits w hw hfound
    exact ⟨hok, List.mem_append_left _ hsub, hother w.1 hover⟩

theorem TasksInv.setCaller (h : TasksInv n s) (pc : WaitPc) (hok : CallerOk s pc) (c : Nat) :
    ∀ c', CallerOk s (update s.caller c pc c') := by
  rw [Function.forall_update_iff s.caller fun _ pc => CallerOk s pc]
  exact ⟨hok, fun c' _ => h.caller c'⟩

theorem TasksInv.wait (h : TasksInv n s) (c id : Nat) : TasksInv n (s.wait c id) := by
  unfold State.wait
  split_ifs with hwaiter
  · have hsub : id ∈ s.submitted := by
      by_contra hnot
      rw [(h.fresh id hnot).1] at hwaiter
      cases hwaiter
    refine { h with
      fresh := fun id' hid' => ⟨?_, (h.fresh id' hid').2⟩
      caller := h.setCaller (.latch id) hsub c }
    have hne : id' ≠ id := by
      rintro rfl
      exact hid' hsub
    dsimp only
    rw [update_of_ne hne]
    exact (h.fresh id' hid').1
  · refine { h with waits := fun w hw hfound => ?_ }
    rcases List.mem_append.mp hw with hw | hw
    · exact h.waits w hw hfound
    · rw [List.mem_singleton.mp hw] at hfound
      exact absurd rfl hfound

theorem TasksInv.waitStep (h : TasksInv n s) (hstep : s.waitStep c = some s') : TasksInv n s' := by
  have hcaller := h.caller c
  unfold State.waitStep at hstep
  split at hstep
  · cases hstep
  · -- latch
    next id hpc =>
    rw [hpc] at hcaller
    split_ifs at hstep with hzero
    cases hstep
    have hover : (s.tasks id).Over := by
      refine h.ended id hcaller fun q hq => ?_
      have hone := h.counter hq
      omega
    exact { h with caller := h.setCaller (.exist id) ⟨hcaller, hover⟩ c }
  · -- exist
    next id hpc =>
    rw [hpc] at hcaller
    cases hstep
    rw [h.noFailure]
    exact { h with
      noFailure := rfl
      caller := h.setCaller (.remove id _) ⟨hcaller.1, hcaller.2, decide_eq_false nofun⟩ c }
  · -- remove
    next id failure hpc =>
    rw [hpc] at hcaller
    obtain ⟨hsub, hover, rfl⟩ := hcaller
    cases hstep
    refine { h with
      noFailure := by rw [h.noFailure]; rfl
      caller := h.setCaller .idle trivial c
      waits := fun w hw hfound => ?_ }
    rcases List.mem_append.mp hw with hw | hw
    · exact h.waits w hw hfound
    · rw [List.mem_singleton.mp hw]
      exact ⟨rfl, hsub, hover⟩

/-! ## Runs -/

theorem TasksInv.step (h : TasksInv n s) (hstep : step n s e = some s') : TasksInv n s' := by
  cases e with
  | submit =>
    cases hstep
    exact h.submit
  | work q outcome => exact h.work hstep
  | wait c id =>
    simp only [Retrieve.step] at hstep
    split_ifs at hstep
    cases hstep
    exact h.wait c id
  | waitStep c => exact h.waitStep hstep

theorem TasksInv.start (n : Nat) : TasksInv n .start where
  next := (Nat.zero_mod n).symm
  submitted := rfl
  nodup _ := .nil
  place _ _ h := nomatch h
  fresh _ _ := ⟨rfl, rfl⟩
  queued _ _ h := nomatch h
  worker _ := trivial
  ended _ h := nomatch h
  noFailure := rfl
  caller _ := trivial
  waits _ h := nomatch h

theorem TasksInv.of_reach (h : (machine n).Reachable s) : TasksInv n s := by
  refine h.inv ?_ fun s e s' hinv _ hstep => hinv.step hstep
  rintro s rfl
  exact .start n

theorem TasksInv.held_of_unexecuted (h : TasksInv n s) (hid : id ∈ s.submitted)
    (hexec : (s.tasks id).executions = []) : id ∈ s.held ((id - 1) % n) := by
  by_contra hnot
  have hover := h.ended id hid fun q hq => hnot ((h.place q id hq).2 ▸ hq)
  obtain ⟨outcome, result, hone, -⟩ := hover.recorded
  rw [hexec] at hone
  cases hone

theorem TasksInv.executions (h : TasksInv n s) (id : Nat) :
    (s.tasks id).executions = [] ∨ (s.tasks id).Recorded := by
  by_cases hsub : id ∈ s.submitted
  · by_cases hheld : ∃ q, id ∈ s.held q
    · obtain ⟨q, hq⟩ := hheld
      rcases List.mem_append.mp hq with hq | hq
      · have hok := h.worker q
        have hid := Option.mem_toList.mp hq
        cases hpc : s.worker q with
        | waiting =>
          rw [hpc] at hid
          cases hid
        | inserted _ =>
          rw [hpc] at hok
          exact hok.elim
        | popped _ | checking _ | executing _ =>
          rw [hpc] at hok hid
          cases hid
          exact .inl (Task.Unexecuted.executions hok)
        | catching _ _ =>
          rw [hpc] at hok hid
          cases hid
          exact .inr hok.2
        | ran _ _ =>
          rw [hpc] at hok hid
          cases hid
          exact .inr hok.2.2
        | finishing _ =>
          rw [hpc] at hok hid
          cases hid
          exact .inr hok.2.1
      · exact .inl (h.queued q id hq).executions
    · exact .inr (h.ended id hsub fun q hq => hheld ⟨q, hq⟩).recorded
  · rw [(h.fresh id hsub).2]
    exact .inl rfl

theorem TasksInv.executed_once (h : TasksInv n s) (hexec : (s.tasks id).executions ≠ []) :
    (s.tasks id).executions.length = 1 := by
  obtain ⟨outcome, result, hone, -⟩ := (h.executions id).resolve_left hexec
  rw [hone]
  rfl

theorem work_cases (hstep : s.work q outcome = some s') : ∃ pc,
    s'.worker = update s.worker q pc ∧
    (pc.remaining < (s.worker q).remaining ∧ s'.taskQ = s.taskQ ∨
      ∃ id rest, s.worker q = .waiting ∧ s.taskQ q = id :: rest ∧
        s'.taskQ = update s.taskQ q rest ∧ pc = .popped id) := by
  unfold State.work at hstep
  split at hstep
  · next hpc =>
    split at hstep
    · cases hstep
    · next id rest hq =>
      cases hstep
      exact ⟨_, rfl, .inr ⟨id, rest, hpc, hq, rfl, rfl⟩⟩
  · next id hpc =>
    cases hstep
    exact ⟨_, rfl, .inl ⟨hpc ▸ Nat.lt_succ_self 6, rfl⟩⟩
  · next id hpc =>
    cases hstep
    refine ⟨_, rfl, .inl ⟨?_, rfl⟩⟩
    rw [hpc]
    split_ifs
    · exact (by decide : 1 < 6)
    · exact Nat.lt_succ_self 5
  · next id hpc =>
    cases hstep
    cases outcome with
    | completed topkIndices => exact ⟨_, rfl, .inl ⟨hpc ▸ (by decide : 3 < 5), rfl⟩⟩
    | thrown what => exact ⟨_, rfl, .inl ⟨hpc ▸ Nat.lt_succ_self 4, rfl⟩⟩
  · next id what hpc =>
    cases hstep
    exact ⟨_, rfl, .inl ⟨hpc ▸ Nat.lt_succ_self 3, rfl⟩⟩
  · next id status hpc =>
    split_ifs at hstep
    · cases hstep
      exact ⟨_, rfl, .inl ⟨hpc ▸ Nat.lt_succ_self 2, rfl⟩⟩
    · cases hstep
      exact ⟨_, rfl, .inl ⟨hpc ▸ (by decide : 1 < 3), rfl⟩⟩
  · next id hpc =>
    cases hstep
    exact ⟨_, rfl, .inl ⟨hpc ▸ Nat.lt_succ_self 1, rfl⟩⟩
  · next id hpc =>
    cases hstep
    exact ⟨_, rfl, .inl ⟨hpc ▸ Nat.lt_succ_self 0, rfl⟩⟩

theorem stepsAhead_append {l : List Nat} {new : Nat} (hne : id ≠ new) :
    stepsAhead id (l ++ [new]) = stepsAhead id l := by
  unfold stepsAhead
  by_cases hmem : id ∈ l
  · rw [if_pos (List.mem_append_left _ hmem), if_pos hmem, List.idxOf_append_of_mem hmem]
  · rw [if_neg hmem, if_neg]
    rw [List.mem_append, List.mem_singleton, not_or]
    exact ⟨hmem, hne⟩

theorem stepsAhead_cons {first : Nat} {rest : List Nat} (hmem : id ∈ first :: rest)
    (hnodup : (first :: rest).Nodup) : 7 + stepsAhead id rest < stepsAhead id (first :: rest) := by
  unfold stepsAhead
  rw [if_pos hmem]
  by_cases hfirst : id = first
  · subst hfirst
    rw [if_neg (List.nodup_cons.mp hnodup).1]
    omega
  · rw [if_pos ((List.mem_cons.mp hmem).resolve_left hfirst), List.idxOf_cons_ne _ (Ne.symm hfirst)]
    omega

theorem remaining_step (h : TasksInv n s) (hheld : id ∈ s.held q) (hstep : step n s e = some s') :
    s'.remaining q id ≤ s.remaining q id ∧
      (WorkerAdvances q s s' → s'.remaining q id < s.remaining q id) := by
  -- Steps that leave the worker and the place in the queue alone.
  have hsame : s'.worker q = s.worker q → s'.taskQ q = s.taskQ q →
      s'.remaining q id ≤ s.remaining q id ∧
        (WorkerAdvances q s s' → s'.remaining q id < s.remaining q id) := by
    intro hworker hqueue
    unfold State.remaining
    rw [hworker, hqueue]
    exact ⟨Nat.le_refl _, fun hne => absurd hworker hne⟩
  cases e with
  | submit =>
    cases hstep
    unfold State.submitSingleTask
    dsimp only
    split_ifs
    · exact ⟨Nat.le_refl _, fun hne => absurd rfl hne⟩
    · refine ⟨Nat.le_of_eq ?_, fun hne => absurd rfl hne⟩
      unfold State.remaining
      dsimp only
      by_cases heq : q = s.lastTimeScheduledQueueIdx
      · have hne : id ≠ s.taskIdSeed + 1 := by
          have hle := (h.mem_submitted.mp (h.place q id hheld).1).2
          omega
        rw [← heq, update_self, stepsAhead_append hne]
      · rw [update_of_ne heq]
  | work q' outcome =>
    obtain ⟨pc, hworker, hcases⟩ := work_cases hstep
    by_cases heq : q = q'
    · subst heq
      have hlt : s'.remaining q id < s.remaining q id := by
        unfold State.remaining
        rw [hworker, update_self]
        rcases hcases with ⟨hless, hqueue⟩ | ⟨first, rest, hpc, hq, hqueue, rfl⟩
        · rw [hqueue]
          omega
        · have hnodup := h.nodup q
          unfold State.held at hheld hnodup
          rw [hpc, hq] at hheld hnodup
          rw [hqueue, update_self, hpc, hq]
          have hless := stepsAhead_cons hheld hnodup
          exact Nat.lt_of_lt_of_le hless (Nat.le_add_left _ _)
      exact ⟨Nat.le_of_lt hlt, fun _ => hlt⟩
    · refine hsame (by rw [hworker, update_of_ne heq]) ?_
      rcases hcases with ⟨-, hqueue⟩ | ⟨_, _, -, -, hqueue, -⟩
      · rw [hqueue]
      · rw [hqueue, update_of_ne heq]
  | wait c id' =>
    simp only [step] at hstep
    split_ifs at hstep
    cases hstep
    unfold State.wait
    split_ifs
    · exact ⟨Nat.le_refl _, fun hne => absurd rfl hne⟩
    · exact ⟨Nat.le_refl _, fun hne => absurd rfl hne⟩
  | waitStep c =>
    simp only [step, State.waitStep] at hstep
    split at hstep
    · cases hstep
    · split_ifs at hstep
      cases hstep
      exact hsame rfl rfl
    · cases hstep
      exact hsame rfl rfl
    · cases hstep
      exact hsame rfl rfl

theorem update_executions (tasks : Nat → Task) {id : Nat} {t : Task}
    (h : (tasks id).executions <+: t.executions) (id' : Nat) :
    (tasks id').executions <+: (update tasks id t id').executions := by
  by_cases heq : id' = id
  · rw [heq, update_self]
    exact h
  · have hsame : update tasks id t id' = tasks id' := update_of_ne heq t tasks
    exact hsame ▸ List.prefix_refl _

theorem step_mono (hstep : step n s e = some s') (id : Nat) :
    s.submitted <+: s'.submitted ∧ (s.tasks id).executions <+: (s'.tasks id).executions := by
  have hids := List.prefix_refl s.submitted
  have hsame := List.prefix_refl (s.tasks id).executions
  have hkept : ∀ (id' : Nat) (t : Task), t.executions = (s.tasks id').executions →
      (s.tasks id).executions <+: (update s.tasks id' t id).executions :=
    fun id' t ht => update_executions s.tasks (ht ▸ List.prefix_refl _) id
  cases e with
  | submit =>
    cases hstep
    unfold State.submitSingleTask
    dsimp only
    split_ifs
    · exact ⟨hids, hsame⟩
    · exact ⟨List.prefix_append _ _, hkept _ _ rfl⟩
  | work q outcome =>
    simp only [step, State.work] at hstep
    split at hstep
    · split at hstep
      · cases hstep
      · cases hstep
        exact ⟨hids, hsame⟩
    · cases hstep
      exact ⟨hids, hkept _ _ rfl⟩
    · cases hstep
      exact ⟨hids, hsame⟩
    · -- executing
      next id' hpc =>
      cases hstep
      have hadd := update_executions s.tasks
        (t := { s.tasks id' with executions := (s.tasks id').executions ++ [outcome] })
        (List.prefix_append _ _) id
      cases outcome with
      | completed topkIndices =>
        refine ⟨hids, hadd.trans ?_⟩
        unfold State.execute State.setResult State.setWorker
        refine update_executions _ ?_ id
        exact List.prefix_refl _
      | thrown what => exact ⟨hids, hadd⟩
    · cases hstep
      exact ⟨hids, hkept _ _ rfl⟩
    · split_ifs at hstep
      · cases hstep
        exact ⟨hids, hsame⟩
      · cases hstep
        exact ⟨hids, hkept _ _ rfl⟩
    · cases hstep
      exact ⟨hids, hkept _ _ rfl⟩
    · cases hstep
      exact ⟨hids, hkept _ _ rfl⟩
  | wait c id' =>
    simp only [step] at hstep
    split_ifs at hstep
    cases hstep
    unfold State.wait
    split_ifs
    · exact ⟨hids, hsame⟩
    · exact ⟨hids, hsame⟩
  | waitStep c =>
    simp only [step, State.waitStep] at hstep
    split at hstep
    · cases hstep
    · split_ifs at hstep
      cases hstep
      exact ⟨hids, hsame⟩
    · cases hstep
      exact ⟨hids, hsame⟩
    · cases hstep
      exact ⟨hids, hsame⟩

theorem executed_of_path (hreach : (machine n).Reachable s) (hid : id ∈ s.submitted) {m : Nat}
    (hpath : (machine n).Path (fun _ _ => True) (WorkerAdvances ((id - 1) % n)) s m s')
    (hm : s.remaining ((id - 1) % n) id < m) : (s'.tasks id).executions.length = 1 := by
  have hstay : ∀ t e t', True → (machine n).step t e = some t' →
      (TasksInv n t ∧ (t.tasks id).executions ≠ []) →
      TasksInv n t' ∧ (t'.tasks id).executions ≠ [] := by
    rintro t e t' - hstep ⟨ht, hexec⟩
    refine ⟨ht.step hstep, fun hnil => hexec ?_⟩
    have hprefix := (step_mono hstep id).2
    rw [hnil] at hprefix
    exact List.prefix_nil.mp hprefix
  have hgoal : TasksInv n s' ∧ (s'.tasks id).executions ≠ [] := by
    refine hpath.response (Q := fun t => TasksInv n t ∧ id ∈ t.submitted)
      (f := fun t => t.remaining ((id - 1) % n) id) hstay ?_ ⟨.of_reach hreach, hid⟩ hm
    rintro t e t' hC hstep ⟨ht, hsub⟩
    by_cases hexec : (t.tasks id).executions = []
    · exact .inr ⟨⟨ht.step hstep, (step_mono hstep id).1.subset hsub⟩,
        remaining_step ht (ht.held_of_unexecuted hsub hexec) hstep⟩
    · exact .inl (hstay t e t' hC hstep ⟨ht, hexec⟩)
  exact hgoal.1.executed_once hgoal.2

theorem truthful_iff (hover : (s.tasks id).Over) (hexec : (s.tasks id).executions = [outcome]) :
    Truthful s id outcome .ok ↔ ∃ topkIndices, outcome = .completed topkIndices := by
  obtain ⟨outcome', result, hone, hresult, hindices⟩ := hover.recorded
  obtain ⟨result', hresult', hsuccess⟩ := hover.succeeded
  cases hone.symm.trans hexec
  cases hresult.symm.trans hresult'
  have hreport : getTaskResult s id = some (.success result.topkIndices) := by
    unfold getTaskResult
    rw [hresult, Option.map_some, hsuccess]
  cases outcome with
  | completed topkIndices =>
    refine iff_of_true ⟨?_, iff_of_false nofun nofun⟩ ⟨topkIndices, rfl⟩
    rw [hreport, hindices topkIndices rfl]
    rfl
  | thrown what =>
    refine iff_of_false (fun htrue => ?_) nofun
    have hwrong := hreport.symm.trans htrue.1
    cases hwrong

/-- Every submitted task has an id of its own and is executed once when its worker goes on often enough,
never twice. `Wait` returns when the execution is over, and the outcome is reported as it is if the
computation has completed, and only then. -/
theorem tasks_reported (n : Nat) :
    (∀ s, (machine n).Reachable s → s.submitted.Nodup ∧
      (∀ id, (s.tasks id).executions.length ≤ 1) ∧
      ∀ id status, (id, status) ∈ s.waits → status ≠ .notFound →
        ∃ outcome, (s.tasks id).executions = [outcome] ∧ (∀ q, (s.worker q).task ≠ some id) ∧
          (Truthful s id outcome status ↔ ∃ topkIndices, outcome = .completed topkIndices)) ∧
    ∀ s id, (machine n).Reachable s → id ∈ s.submitted →
      ∀ m s', (machine n).Path (fun _ _ => True) (WorkerAdvances ((id - 1) % n)) s m s' →
        s.remaining ((id - 1) % n) id < m → (s'.tasks id).executions.length = 1 := by
  refine ⟨fun s hreach => ?_, fun s id hreach hid m s' hpath hm =>
    executed_of_path hreach hid hpath hm⟩
  have hinv := TasksInv.of_reach hreach
  refine ⟨?_, fun id => ?_, fun id status hwait hfound => ?_⟩
  · rw [hinv.submitted]
    exact List.nodup_range'
  · by_cases hexec : (s.tasks id).executions = []
    · rw [hexec]
      exact Nat.zero_le _
    · exact Nat.le_of_eq (hinv.executed_once hexec)
  · obtain ⟨rfl, -, hover⟩ := hinv.waits (id, status) hwait hfound
    obtain ⟨outcome, result, hexec, -⟩ := hover.recorded
    refine ⟨outcome, hexec, fun q hq => ?_, truthful_iff hover hexec⟩
    exact hinv.not_over (mem_held_of_task hq) hover

/-- Two tasks in two queues; the second ends like this, and is waited for. -/
def secondTask (outcome : Outcome) (steps : Nat) : List Event :=
  [.submit, .submit, .work 0 (.completed [5]), .wait 0 2] ++
    List.replicate steps (.work 1 outcome) ++ List.replicate 3 (.waitStep 0)

/-- The second task completes: it is reported as it is. -/
theorem tasks_reported_second : ∃ s, (machine 2).Reachable s ∧ s.submitted = [1, 2] ∧
    s.waits = [(2, .ok)] ∧ Truthful s 2 (.completed [4, 0]) .ok := by
  obtain ⟨s, hs, hp⟩ := Machine.exists_reachable_of_run (M := machine 2) (s := .start)
    (l := secondTask (.completed [4, 0]) 6) (p := fun s => s.submitted = [1, 2] ∧ s.waits = [(2,
      .ok)] ∧ (s.tasks 2).executions = [.completed [4, 0]]) rfl (by decide +kernel)
  obtain ⟨hsub, hwaits, hexec⟩ := hp
  obtain ⟨-, -, hreport⟩ := (tasks_reported 2).1 s hs
  have hmem : (2, .ok) ∈ s.waits := hwaits ▸ List.mem_singleton_self _
  obtain ⟨outcome, hone, -, htrue⟩ := hreport 2 .ok hmem nofun
  cases hone.symm.trans hexec
  exact ⟨s, hs, hsub, hwaits, htrue.mpr ⟨_, rfl⟩⟩

/-- The second task throws: `Wait` returns OK, and the result is a success without indices. -/
theorem tasks_report_thrown : ∃ s, (machine 2).Reachable s ∧ s.waits = [(2, .ok)] ∧
    (s.tasks 2).executions = [.thrown "Query shape must be 3D (x, H, d)."] ∧
    getTaskResult s 2 = some (.success []) ∧
    ¬ Truthful s 2 (.thrown "Query shape must be 3D (x, H, d).") .ok := by
  obtain ⟨s, hs, hp⟩ := Machine.exists_reachable_of_run (M := machine 2) (s := .start)
    (l := secondTask (.thrown "Query shape must be 3D (x, H, d).") 7) (p := fun s => s.waits = [(2,
      .ok)] ∧ (s.tasks 2).executions = [.thrown "Query shape must be 3D (x, H, d)."] ∧
      getTaskResult s 2 = some (.success [])) rfl (by decide +kernel)
  obtain ⟨hwaits, hexec, hresult⟩ := hp
  refine ⟨s, hs, hwaits, hexec, hresult, fun htrue => ?_⟩
  have hwrong := hresult.symm.trans htrue.1
  cases hwrong

end UnifiedCache.Sparse.Retrieve
