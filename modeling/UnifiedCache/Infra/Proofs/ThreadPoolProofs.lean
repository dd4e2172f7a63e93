import UnifiedCache.Infra.ThreadPool
import UnifiedCache.Lib.Ledger

/-!
# Proofs: the thread pool loses and duplicates no task

The steps of the pool's own code move tasks between the queue, the snapshot of a traversal and the
workers; only the user's functions finish them.
-/

open Lib

namespace UnifiedCache.Infra

variable {τ π θ : Type*}

/-! ## The queue -/

theorem WaitQueue.push_held (q : WaitQueue τ) (tasks : List τ) :
    (q.push tasks).held.Perm (tasks ++ q.held) := by
  classical
  refine List.perm_iff_count.mpr fun a => ?_
  by_cases hd : q.drain
  · simp only [WaitQueue.push, hd, if_true, WaitQueue.held, List.count_append]
    omega
  · simp only [WaitQueue.push, hd, WaitQueue.held, List.count_append, Bool.false_eq_true, if_false]
    omega

variable {q q' : WaitQueue τ} {task : τ}

theorem WaitQueue.pop_held (h : q.pop = some (task, q')) :
    q.held = task :: q'.held := by
  rcases q with ⟨_ | ⟨t, ts⟩, pending, drain⟩
  · cases h
  · simp only [WaitQueue.pop, Option.some.injEq, Prod.mk.injEq] at h
    obtain ⟨rfl, rfl⟩ := h
    rfl

theorem WaitQueue.swap_held {snapshot : List τ} (h : q.swap = some (snapshot, q')) :
    q.held = snapshot ++ q'.held := by
  rcases q with ⟨ts, pending, drain⟩
  simp only [WaitQueue.swap] at h
  split_ifs at h
  cases h
  rfl

/-! ## Traversal -/

variable {nWorker : Nat}

theorem Traverse.step_held {earlyStopper filter : τ → Bool} {t : Traverse τ}
    {o : Option (Traverse τ)} (h : t.step nWorker earlyStopper filter q = some (o, q')) :
    (Traverse.rest o ++ q'.held).Perm (t.held ++ q.held) := by
  classical
  cases t with
  | swap =>
    simp only [Traverse.step] at h
    split at h
    · cases h
      exact .refl _
    · next snapshot q₁ hswap =>
      cases h
      rw [WaitQueue.swap_held hswap]
      exact .refl _
  | scan kept rest processed =>
    cases rest with
    | nil =>
      cases h
      simp only [Traverse.rest, Traverse.held, List.append_nil]
      exact .refl _
    | cons task rest =>
      simp only [Traverse.step] at h
      split_ifs at h <;> cases h <;>
        simp only [Traverse.rest, Traverse.held, List.append_assoc, List.cons_append,
          List.nil_append] <;> exact .refl _
  | visit kept task rest processed => cases h
  | splice kept rest =>
    cases h
    refine List.perm_iff_count.mpr fun a => ?_
    simp only [Traverse.rest, Traverse.held, WaitQueue.splice, WaitQueue.held, List.count_append,
      List.count_nil]
    omega
  | finish snapshot =>
    cases h
    refine List.perm_iff_count.mpr fun a => ?_
    simp only [Traverse.rest, Traverse.held, WaitQueue.finish, WaitQueue.held, List.count_append,
      List.count_nil]
    omega

/-! ## Workers and the monitor -/

variable {p₀ : π} {w w' : Worker τ π}

theorem Worker.step_held (h : w.step p₀ q = some (w', q')) :
    (w'.held ++ q'.held).Perm (w.held ++ q.held) := by
  rcases w with ⟨pc, stop, current, tp⟩
  cases pc with
  | wait =>
    simp only [Worker.step] at h
    split_ifs at h
    · cases h
      exact .refl _
    · obtain ⟨⟨task, q₁⟩, hpop, heq⟩ := Option.map_eq_some_iff.mp h
      cases heq
      rw [WaitQueue.pop_held hpop]
      exact .refl _
  | ret task =>
    simp only [Worker.step] at h
    split_ifs at h <;> cases h <;> exact .refl _
  | taken task | stored task | reset task =>
    cases h
    exact .refl _
  | run task p | exited => cases h

theorem Worker.step_current (h : w.step p₀ q = some (w', q')) (ht : w'.current = some task) :
    w.current = some task ∨ task ∈ w.held := by
  rcases w with ⟨pc, stop, current, tp⟩
  cases pc with
  | wait =>
    simp only [Worker.step] at h
    split_ifs at h
    · cases h
      exact .inl ht
    · obtain ⟨⟨task', q₁⟩, -, heq⟩ := Option.map_eq_some_iff.mp h
      cases heq
      exact .inl ht
  | taken task' =>
    cases h
    cases ht
    exact .inr (List.mem_singleton_self _)
  | ret task' =>
    simp only [Worker.step] at h
    split_ifs at h <;> cases h <;> cases ht
  | stored task' | reset task' =>
    cases h
    exact .inl ht
  | run task' p | exited => cases h

theorem Worker.step_run {p : π} (h : w.step p₀ q = some (w', q')) (hpc : w'.pc = .run task p) :
    p = p₀ := by
  rcases w with ⟨pc, stop, current, tp⟩
  cases pc with
  | wait =>
    simp only [Worker.step] at h
    split_ifs at h
    · cases h
      cases hpc
    · obtain ⟨⟨task', q₁⟩, -, heq⟩ := Option.map_eq_some_iff.mp h
      cases heq
      cases hpc
  | ret task' =>
    simp only [Worker.step] at h
    split_ifs at h <;> cases h <;> cases hpc
  | stored task' =>
    cases h
    cases hpc
    rfl
  | taken task' | reset task' =>
    cases h
    cases hpc
  | run task' p | exited => cases h

namespace ThreadPool

variable {b b' : ThreadPool τ π θ}

theorem held_setQueue (b : ThreadPool τ π θ) (q : WaitQueue τ) :
    (b.queue.held ++ (b.setQueue q).held).Perm (q.held ++ b.held) := by
  classical
  refine List.perm_iff_count.mpr fun a => ?_
  simp only [held, setQueue, List.count_append]
  omega

theorem held_push (b : ThreadPool τ π θ) (tasks : List τ) :
    (b.setQueue (b.queue.push tasks)).held.Perm (tasks ++ b.held) := by
  classical
  have hqueue := b.held_setQueue (b.queue.push tasks)
  have hpush := b.queue.push_held tasks
  refine List.perm_iff_count.mpr fun a => ?_
  have h1 := hqueue.count_eq a
  have h2 := hpush.count_eq a
  simp only [List.count_append] at h1 h2 ⊢
  omega

variable {i : Nat}

theorem held_setWorker (hw : b.threads[i]? = some w) (w' : Worker τ π) :
    (w.held ++ (b.setWorker i w').held).Perm (w'.held ++ b.held) := by
  classical
  have hset := Ledger.flatMap_set hw Worker.held w'
  refine List.perm_iff_count.mpr fun a => ?_
  have hcount := hset.count_eq a
  simp only [held, setWorker, List.count_append] at hcount ⊢
  omega

theorem held_setWorker_subset (hw : b.threads[i]? = some w) (hheld : w'.held ⊆ w.held) :
    (b.setWorker i w').held ⊆ b.held := by
  intro task ht
  have hset := (held_setWorker hw w').subset (List.mem_append_right _ ht)
  rcases List.mem_append.mp hset with hnew | hold
  · exact List.mem_append_right _
      (List.mem_flatMap.mpr ⟨w, List.mem_of_getElem? hw, hheld hnew⟩)
  · exact hold

theorem workerStep_held (h : b.workerStep p₀ i = some b') :
    b'.held.Perm b.held := by
  classical
  obtain ⟨w, hw, hstep⟩ := Option.bind_eq_some_iff.mp h
  obtain ⟨⟨w', q'⟩, hmove, rfl⟩ := Option.map_eq_some_iff.mp hstep
  have hqueue := b.held_setQueue q'
  have hset := held_setWorker (b := b.setQueue q') hw w'
  have hmove := Worker.step_held hmove
  refine List.perm_iff_count.mpr fun a => ?_
  have h1 := hqueue.count_eq a
  have h2 := hset.count_eq a
  have h3 := hmove.count_eq a
  simp only [List.count_append] at h1 h2 h3 ⊢
  omega

theorem workerStep_monitor (h : b.workerStep p₀ i = some b') :
    b'.monitor = b.monitor := by
  obtain ⟨w, -, hstep⟩ := Option.bind_eq_some_iff.mp h
  obtain ⟨⟨w', q'⟩, -, rfl⟩ := Option.map_eq_some_iff.mp hstep
  rfl

theorem worker?_eq_some {it : Nat} (h : b.worker? it = some (i, w)) :
    b.threads[i]? = some w := by
  obtain ⟨j, -, hj⟩ := Option.bind_eq_some_iff.mp h
  obtain ⟨w', hw', heq⟩ := Option.map_eq_some_iff.mp hj
  cases heq
  exact hw'

variable {overdue added : Bool}

theorem monitorStep_held {p₀ : θ} (h : b.monitorStep nWorker p₀ overdue added = some b') :
    b'.held.Perm b.held := by
  unfold monitorStep at h
  split at h
  · cases h
    exact .refl _
  · split at h <;> cases h <;> exact .refl _
  · obtain ⟨⟨i, w⟩, -, rfl⟩ := Option.map_eq_some_iff.mp h
    exact .refl _
  · split at h
    · cases h
      exact .refl _
    · split_ifs at h <;> cases h <;> exact .refl _
  · cases h
  · obtain ⟨⟨i, w⟩, hw, rfl⟩ := Option.map_eq_some_iff.mp h
    exact (List.perm_append_left_iff w.held).mp
      (held_setWorker (worker?_eq_some hw) { w with stop := true })
  · cases h
    exact .refl _
  · split_ifs at h
    · cases h
      simp only [held, List.flatMap_append, List.flatMap_singleton]
      have hstart : (Worker.start : Worker τ π).held = [] := rfl
      rw [hstart, List.append_nil]
    · cases h
      exact .refl _

theorem monitorStep_quiet {p₀ : θ} (h : b.monitorStep nWorker p₀ overdue added = some b')
    (hquiet : b.timesOut overdue = false) :
    ∀ it task p, b'.monitor ≠ .timeout it task p := by
  intro it task p hm
  unfold monitorStep at h
  split at h
  · cases h
    cases hm
  · split at h <;> cases h <;> cases hm
  · obtain ⟨⟨i, w⟩, -, rfl⟩ := Option.map_eq_some_iff.mp h
    cases hm
  · next hmon =>
    split at h
    · cases h
      cases hm
    · simp only [timesOut, hmon] at hquiet
      rw [hquiet] at h
      cases h
      cases hm
  · cases h
  · obtain ⟨⟨i, w⟩, -, rfl⟩ := Option.map_eq_some_iff.mp h
    cases hm
  · cases h
    cases hm
  · split_ifs at h <;> cases h <;> cases hm

/-! ## The tasks a pool knows of -/

theorem mem_tasks : task ∈ b.tasks ↔
    task ∈ b.held ∨ (∃ w ∈ b.threads, w.current = some task) ∨ task ∈ b.monitored := by
  simp only [tasks, List.mem_append, List.mem_flatMap, Option.mem_toList, or_assoc]

theorem Runs.held {p : π} (h : b.Runs task p) : task ∈ b.held := by
  obtain ⟨w, hw, hpc⟩ := h
  refine List.mem_append_right _ (List.mem_flatMap.mpr ⟨w, hw, ?_⟩)
  rw [Worker.held, hpc]
  exact List.mem_singleton_self _

theorem runs_setWorker {p : π} (h : (b.setWorker i w).Runs task p) :
    b.Runs task p ∨ w.pc = .run task p := by
  obtain ⟨w', hw', hpc⟩ := h
  rcases List.mem_or_eq_of_mem_set hw' with hw' | rfl
  · exact .inl ⟨w', hw', hpc⟩
  · exact .inr hpc

theorem workerStep_runs {p : π} (h : b.workerStep p₀ i = some b') (hr : b'.Runs task p) :
    b.Runs task p ∨ p = p₀ := by
  obtain ⟨w, hw, hstep⟩ := Option.bind_eq_some_iff.mp h
  obtain ⟨⟨w', q'⟩, hmove, rfl⟩ := Option.map_eq_some_iff.mp hstep
  rcases runs_setWorker hr with hr | hpc
  · exact .inl hr
  · exact .inr (Worker.step_run hmove hpc)

theorem Runs.setWorker {p : π} (h : b.Runs task p) (hw : b.threads[i]? = some w)
    (hpc : w.pc ≠ .run task p) (w' : Worker τ π) :
    (b.setWorker i w').Runs task p := by
  obtain ⟨w₁, hw₁, hpc₁⟩ := h
  obtain ⟨j, hj⟩ := List.mem_iff_getElem?.mp hw₁
  have hne : i ≠ j := by
    rintro rfl
    rw [hj] at hw
    cases hw
    exact hpc hpc₁
  refine ⟨w₁, List.mem_iff_getElem?.mpr ⟨j, ?_⟩, hpc₁⟩
  rw [ThreadPool.setWorker, List.getElem?_set_ne hne, hj]

theorem Runs.workerStep {p : π} (hr : b.Runs task p) (h : b.workerStep p₀ i = some b') :
    b'.Runs task p := by
  obtain ⟨w, hw, hstep⟩ := Option.bind_eq_some_iff.mp h
  obtain ⟨⟨w', q'⟩, hmove, rfl⟩ := Option.map_eq_some_iff.mp hstep
  refine Runs.setWorker (b := b.setQueue q') hr hw (fun hpc => ?_) w'
  simp only [Worker.step, hpc] at hmove
  cases hmove

theorem monitorStep_threads {p₀ : θ} (h : b.monitorStep nWorker p₀ overdue added = some b')
    (hw' : w' ∈ b'.threads) :
    (∃ w ∈ b.threads, w'.pc = w.pc ∧ w'.current = w.current) ∨ w' = .start := by
  unfold monitorStep at h
  split at h
  · cases h
    exact .inl ⟨w', hw', rfl, rfl⟩
  · split at h <;> cases h <;> exact .inl ⟨w', hw', rfl, rfl⟩
  · obtain ⟨⟨i, w⟩, -, rfl⟩ := Option.map_eq_some_iff.mp h
    exact .inl ⟨w', hw', rfl, rfl⟩
  · split at h
    · cases h
      exact .inl ⟨w', hw', rfl, rfl⟩
    · split_ifs at h <;> cases h <;> exact .inl ⟨w', hw', rfl, rfl⟩
  · cases h
  · obtain ⟨⟨i, w⟩, hw, rfl⟩ := Option.map_eq_some_iff.mp h
    rcases List.mem_or_eq_of_mem_set hw' with hw' | rfl
    · exact .inl ⟨w', hw', rfl, rfl⟩
    · exact .inl ⟨w, List.mem_of_getElem? (worker?_eq_some hw), rfl, rfl⟩
  · cases h
    exact .inl ⟨w', hw', rfl, rfl⟩
  · split_ifs at h <;> cases h
    · rcases List.mem_append.mp hw' with hw' | hw'
      · exact .inl ⟨w', hw', rfl, rfl⟩
      · exact .inr (List.mem_singleton.mp hw')
    · exact .inl ⟨w', hw', rfl, rfl⟩

theorem monitorStep_runs {p₀ : θ} {p : π} (h : b.monitorStep nWorker p₀ overdue added = some b')
    (hr : b'.Runs task p) :
    b.Runs task p := by
  obtain ⟨w', hw', hpc⟩ := hr
  rcases monitorStep_threads h hw' with ⟨w, hw, hpc', -⟩ | rfl
  · exact ⟨w, hw, hpc'.symm.trans hpc⟩
  · cases hpc

theorem monitorStep_monitored {p₀ : θ} (h : b.monitorStep nWorker p₀ overdue added = some b')
    (ht : task ∈ b'.monitored) :
    task ∈ b.monitored ∨ ∃ w ∈ b.threads, w.current = some task := by
  unfold monitorStep at h
  split at h
  · cases h
    cases ht
  · split at h <;> cases h <;> cases ht
  · obtain ⟨⟨i, w⟩, hw, rfl⟩ := Option.map_eq_some_iff.mp h
    exact .inr ⟨w, List.mem_of_getElem? (worker?_eq_some hw), Option.mem_toList.mp ht⟩
  · next hm =>
    split at h
    · cases h
      cases ht
    · split_ifs at h <;> cases h
      · left
        simpa [monitored, hm] using ht
      · cases ht
  · cases h
  · obtain ⟨⟨i, w⟩, hw, rfl⟩ := Option.map_eq_some_iff.mp h
    cases ht
  · cases h
    cases ht
  · split_ifs at h <;> cases h <;> cases ht

theorem monitorStep_timeout {p₀ p : θ} (h : b.monitorStep nWorker p₀ overdue added = some b')
    (it : Nat) (task : τ) (hm : b'.monitor = .timeout it task p) : p = p₀ := by
  unfold monitorStep at h
  split at h
  · cases h
    cases hm
  · split at h <;> cases h <;> cases hm
  · obtain ⟨⟨i, w⟩, -, rfl⟩ := Option.map_eq_some_iff.mp h
    cases hm
  · split at h
    · cases h
      cases hm
    · split_ifs at h <;> cases h <;> cases hm
      rfl
  · cases h
  · obtain ⟨⟨i, w⟩, -, rfl⟩ := Option.map_eq_some_iff.mp h
    cases hm
  · cases h
    cases hm
  · split_ifs at h <;> cases h <;> cases hm

theorem workerStep_tasks (h : b.workerStep p₀ i = some b') :
    b'.tasks ⊆ b.tasks := by
  intro task ht
  rcases mem_tasks.mp ht with hheld | ⟨w₁, hw₁, hcur⟩ | hmon
  · exact mem_tasks.mpr (.inl ((workerStep_held h).subset hheld))
  · obtain ⟨w, hw, hstep⟩ := Option.bind_eq_some_iff.mp h
    obtain ⟨⟨w', q'⟩, hmove, rfl⟩ := Option.map_eq_some_iff.mp hstep
    have hmem : w ∈ b.threads := List.mem_of_getElem? hw
    rcases List.mem_or_eq_of_mem_set hw₁ with hw₁ | rfl
    · exact mem_tasks.mpr (.inr (.inl ⟨w₁, hw₁, hcur⟩))
    · rcases Worker.step_current hmove hcur with hcur | hheld
      · exact mem_tasks.mpr (.inr (.inl ⟨w, hmem, hcur⟩))
      · exact mem_tasks.mpr (.inl (List.mem_append_right _ (List.mem_flatMap.mpr ⟨w, hmem, hheld⟩)))
  · rw [monitored, workerStep_monitor h] at hmon
    exact mem_tasks.mpr (.inr (.inr hmon))

theorem monitorStep_tasks {p₀ : θ} (h : b.monitorStep nWorker p₀ overdue added = some b') :
    b'.tasks ⊆ b.tasks := by
  intro task ht
  rcases mem_tasks.mp ht with hheld | ⟨w', hw', hcur⟩ | hmon
  · exact mem_tasks.mpr (.inl ((monitorStep_held h).subset hheld))
  · rcases monitorStep_threads h hw' with ⟨w, hw, -, hcur'⟩ | rfl
    · exact mem_tasks.mpr (.inr (.inl ⟨w, hw, hcur'.symm.trans hcur⟩))
    · cases hcur
  · rcases monitorStep_monitored h hmon with hmon | hw
    · exact mem_tasks.mpr (.inr (.inr hmon))
    · exact mem_tasks.mpr (.inr (.inl hw))

theorem start_held (nWorker : Nat) : (start nWorker : ThreadPool τ π θ).held = [] := by
  have hw : ∀ n, (List.replicate n (Worker.start : Worker τ π)).flatMap Worker.held = [] := by
    intro n
    rw [List.flatMap_eq_nil_iff]
    intro w hw
    rw [List.eq_of_mem_replicate hw]
    rfl
  simp only [held, start, hw, List.append_nil]
  rfl

theorem start_tasks (nWorker : Nat) : (start nWorker : ThreadPool τ π θ).tasks = [] := by
  refine List.eq_nil_iff_forall_not_mem.mpr fun task ht => ?_
  rcases mem_tasks.mp ht with hheld | ⟨w, hw, hcur⟩ | hmon
  · rw [start_held] at hheld
    cases hheld
  · rw [List.eq_of_mem_replicate hw] at hcur
    cases hcur
  · cases hmon

end ThreadPool

end UnifiedCache.Infra
