import UnifiedCache.Infra.Proofs.ThreadPoolProofs
import Mathlib.Algebra.BigOperators.Group.List.Basic
import Mathlib.Algebra.Ring.Nat

/-!
# Proofs: a thread pool gets its work done

A pool whose workers are not told to stop always has a worker that goes on as long as it holds a task,
and every step of a worker makes the work that is left smaller. What the worker function still has to do
is the user's to say.
-/

namespace UnifiedCache.Infra

variable {τ π θ : Type*}

/-! ## The work left -/

section Work

variable (cost : τ → π → Nat) (p₀ : π)

/-- The steps a worker takes at most before it waits again, if the worker function takes `cost` of
them. -/
def Worker.work (w : Worker τ π) : Nat :=
  match w.pc with
  | .wait | .exited => 0
  | .taken task => cost task p₀ + 5
  | .stored task => cost task p₀ + 4
  | .run task p => cost task p + 3
  | .ret _ => 2
  | .reset _ => 1

/-- The steps that are left for the tasks in the queue. -/
def WaitQueue.work (q : WaitQueue τ) : Nat := (q.taskQ.map fun task => cost task p₀ + 6).sum

/-- The steps that are left for the tasks of a pool. -/
def ThreadPool.work (b : ThreadPool τ π θ) : Nat :=
  b.queue.work cost p₀ + (b.threads.map (Worker.work cost p₀)).sum

theorem Worker.step_work {q q' : WaitQueue τ} {w w' : Worker τ π} (hstop : w.stop = false)
    (h : w.step p₀ q = some (w', q')) :
    q'.work cost p₀ + w'.work cost p₀ < q.work cost p₀ + w.work cost p₀ := by
  rcases w with ⟨pc, stop, current, tp⟩
  cases hstop
  cases pc with
  | wait =>
    obtain ⟨⟨task, q₁⟩, hpop, heq⟩ := Option.map_eq_some_iff.mp h
    cases heq
    rcases q with ⟨_ | ⟨t, ts⟩, pending, drain⟩
    · cases hpop
    · cases hpop
      simp only [Worker.work, WaitQueue.work, List.map_cons, List.sum_cons]
      omega
  | taken task | stored task | ret task | reset task =>
    cases h
    simp only [Worker.work]
    omega
  | run task p | exited => cases h

namespace ThreadPool

variable {b b' : ThreadPool τ π θ}

theorem work_setWorker {i : Nat} {w : Worker τ π} (hw : b.threads[i]? = some w)
    (w' : Worker τ π) :
    (b.setWorker i w').work cost p₀ + w.work cost p₀ = b.work cost p₀ + w'.work cost p₀ := by
  obtain ⟨hi, hget⟩ := List.getElem?_eq_some_iff.mp hw
  have hold := ((List.getElem_cons_eraseIdx_perm hi).map (Worker.work cost p₀)).sum_eq
  have hnew := ((List.set_perm_cons_eraseIdx hi w').map (Worker.work cost p₀)).sum_eq
  rw [hget, List.map_cons, List.sum_cons] at hold
  rw [List.map_cons, List.sum_cons] at hnew
  simp only [work, setWorker]
  omega

variable {cost p₀}

theorem workerStep_work {i : Nat} (hstop : ∀ w ∈ b.threads, w.stop = false)
    (h : b.workerStep p₀ i = some b') : b'.work cost p₀ < b.work cost p₀ := by
  obtain ⟨w, hw, hstep⟩ := Option.bind_eq_some_iff.mp h
  obtain ⟨⟨w', q'⟩, hmove, rfl⟩ := Option.map_eq_some_iff.mp hstep
  have hset := work_setWorker (b := b.setQueue q') cost p₀ hw w'
  have hlt := Worker.step_work cost p₀ (hstop w (List.mem_of_getElem? hw)) hmove
  simp only [work, setQueue] at hset ⊢
  omega

theorem run_work {i : Nat} {w : Worker τ π} {task : τ} {p p' : π} (hw : b.threads[i]? = some w)
    (hpc : w.pc = .run task p) (hlt : cost task p' < cost task p) :
    (b.setWorker i { w with pc := .run task p' }).work cost p₀ < b.work cost p₀ := by
  have hset := work_setWorker cost p₀ hw { w with pc := .run task p' }
  have hold : w.work cost p₀ = cost task p + 3 := by rw [Worker.work, hpc]
  have hnew : Worker.work cost p₀ { w with pc := .run task p' } = cost task p' + 3 := rfl
  omega

theorem ret_work {i : Nat} {w : Worker τ π} {task : τ} {p : π} (hw : b.threads[i]? = some w)
    (hpc : w.pc = .run task p) :
    (b.setWorker i { w with pc := .ret task }).work cost p₀ < b.work cost p₀ := by
  have hset := work_setWorker cost p₀ hw { w with pc := .ret task }
  have hold : w.work cost p₀ = cost task p + 3 := by rw [Worker.work, hpc]
  have hnew : Worker.work cost p₀ { w with pc := .ret task } = 2 := rfl
  omega

end ThreadPool

end Work

/-! ## Staff -/

namespace ThreadPool

variable {b b' : ThreadPool τ π θ} {p₀ : π}

/-- The pool has workers, none of them is told to stop, and no traversal is under way. -/
structure Staffed (b : ThreadPool τ π θ) : Prop where
  threads : b.threads ≠ []
  running : ∀ w ∈ b.threads, w.stop = false ∧ w.pc ≠ .exited
  drain : b.queue.drain = false
  pending : b.queue.taskPending = []
  monitor : ∀ it, b.monitor ≠ .stop it

theorem staffed_start {nWorker : Nat} (hpos : 0 < nWorker) :
    (start nWorker : ThreadPool τ π θ).Staffed where
  threads := by
    intro h
    have hlen := congrArg List.length h
    rw [start, List.length_replicate] at hlen
    exact absurd hlen (Nat.ne_of_gt hpos)
  running := by
    intro w hw
    rw [List.eq_of_mem_replicate hw]
    exact ⟨rfl, fun h => by cases h⟩
  drain := rfl
  pending := rfl
  monitor := fun it h => by cases h

theorem Staffed.setWorker (hs : b.Staffed) {i : Nat} {w : Worker τ π} (hstop : w.stop = false)
    (hpc : w.pc ≠ .exited) : (b.setWorker i w).Staffed where
  threads := by
    intro h
    exact hs.threads ((List.set_eq_nil_iff ..).mp h)
  running := by
    intro w' hw'
    rcases List.mem_or_eq_of_mem_set hw' with hw' | rfl
    · exact hs.running w' hw'
    · exact ⟨hstop, hpc⟩
  drain := hs.drain
  pending := hs.pending
  monitor := hs.monitor

theorem Staffed.push (hs : b.Staffed) (tasks : List τ) :
    (b.setQueue (b.queue.push tasks)).Staffed := by
  have hq : b.queue.push tasks = { b.queue with taskQ := b.queue.taskQ ++ tasks } := by
    simp [WaitQueue.push, hs.drain]
  rw [hq]
  exact ⟨hs.threads, hs.running, hs.drain, hs.pending, hs.monitor⟩

theorem Staffed.workerStep (hs : b.Staffed) {i : Nat} (h : b.workerStep p₀ i = some b') :
    b'.Staffed := by
  obtain ⟨w, hw, hstep⟩ := Option.bind_eq_some_iff.mp h
  obtain ⟨⟨w', q'⟩, hmove, rfl⟩ := Option.map_eq_some_iff.mp hstep
  obtain ⟨hstop, hpc⟩ := hs.running w (List.mem_of_getElem? hw)
  rcases w with ⟨pc, stop, current, tp⟩
  cases hstop
  cases pc with
  | wait =>
    obtain ⟨⟨task, q₁⟩, hpop, heq⟩ := Option.map_eq_some_iff.mp hmove
    cases heq
    have hq : q'.drain = b.queue.drain ∧ q'.taskPending = b.queue.taskPending := by
      unfold WaitQueue.pop at hpop
      split at hpop <;> cases hpop
      exact ⟨rfl, rfl⟩
    refine Staffed.setWorker (b := b.setQueue q') ?_ rfl (fun h => by cases h)
    exact ⟨hs.threads, hs.running, hq.1.trans hs.drain, hq.2.trans hs.pending, hs.monitor⟩
  | taken task | stored task | ret task | reset task =>
    cases hmove
    exact hs.setWorker rfl (fun h => by cases h)
  | run task p | exited => cases hmove

theorem Staffed.monitorStep (hs : b.Staffed) {nWorker : Nat} {q₀ : θ} {overdue added : Bool}
    (h : b.monitorStep nWorker q₀ overdue added = some b') : b'.Staffed := by
  have hmove : ∀ m : MonitorPc τ θ, (∀ it, m ≠ .stop it) → Staffed { b with monitor := m } :=
    fun m hm => ⟨hs.threads, hs.running, hs.drain, hs.pending, hm⟩
  unfold ThreadPool.monitorStep at h
  split at h
  · cases h
    exact hmove _ fun it h => by cases h
  · split at h <;> cases h <;> exact hmove _ fun it h => by cases h
  · obtain ⟨⟨i, w⟩, -, rfl⟩ := Option.map_eq_some_iff.mp h
    exact hmove _ fun it h => by cases h
  · split at h
    · cases h
      exact hmove _ fun it h => by cases h
    · split_ifs at h <;> cases h <;> exact hmove _ fun it h => by cases h
  · cases h
  · next it hm => exact absurd hm (hs.monitor it)
  · cases h
    exact hmove _ fun it h => by cases h
  · split_ifs at h <;> cases h
    · refine ⟨by simp, fun w hw => ?_, hs.drain, hs.pending, fun it h => by cases h⟩
      rcases List.mem_append.mp hw with hw | hw
      · exact hs.running w hw
      · rw [List.mem_singleton.mp hw]
        exact ⟨rfl, fun h => by cases h⟩
    · exact hmove _ fun it h => by cases h

/-- **A pool that holds a task has a worker that goes on**, in the worker function or outside of it. -/
theorem Staffed.exists_worker (p₀ : π) (hs : b.Staffed) (hne : b.held ≠ []) :
    ∃ i w, b.threads[i]? = some w ∧
      ((∃ task p, w.pc = .run task p) ∨ ∃ b', b.workerStep p₀ i = some b') := by
  have hgo : ∀ w, w ∈ b.threads → (w.pc = .wait → b.queue.taskQ ≠ []) →
      ∃ i, b.threads[i]? = some w ∧
        ((∃ task p, w.pc = .run task p) ∨ ∃ b', b.workerStep p₀ i = some b') := by
    intro w hw hwait
    obtain ⟨i, hi⟩ := List.mem_iff_getElem?.mp hw
    obtain ⟨hstop, hexit⟩ := hs.running w hw
    refine ⟨i, hi, ?_⟩
    rw [ThreadPool.workerStep, hi, Option.bind_some]
    rcases w with ⟨pc, stop, current, tp⟩
    cases hstop
    cases pc with
    | wait =>
      obtain ⟨t, ts, hq⟩ := List.exists_cons_of_ne_nil (hwait rfl)
      refine .inr ?_
      simp [Worker.step, WaitQueue.pop, hq]
    | taken task | stored task | ret task | reset task => exact .inr ⟨_, rfl⟩
    | run task p => exact .inl ⟨task, p, rfl⟩
    | exited => exact absurd rfl hexit
  by_cases hq : b.queue.taskQ = []
  · -- the queue is empty, so that some worker has a task
    have hheld : b.threads.flatMap Worker.held ≠ [] := by
      intro hnil
      apply hne
      rw [held, WaitQueue.held, hq, hs.pending, hnil]
      rfl
    obtain ⟨task, htask⟩ := List.exists_mem_of_ne_nil _ hheld
    obtain ⟨w, hw, hmem⟩ := List.mem_flatMap.mp htask
    obtain ⟨i, hi⟩ := hgo w hw fun hwait => by
      rw [Worker.held, hwait] at hmem
      cases hmem
    exact ⟨i, w, hi⟩
  · obtain ⟨w, hw⟩ := List.exists_mem_of_ne_nil _ hs.threads
    obtain ⟨i, hi⟩ := hgo w hw fun _ => hq
    exact ⟨i, w, hi⟩

end ThreadPool

end UnifiedCache.Infra
