import UnifiedCache.Infra.Traversals
import UnifiedCache.Infra.Proofs.ThreadPoolProofs

/-!
# Proofs: traversals keep the tasks and their order

At most one call has a snapshot, and while it has, the queue holds the front of the old queue and the
pending list what was pushed since. So taken tasks, queue, snapshot and pending list, one behind the
other, are at any time the tasks that were pushed and not visited.
-/

open Lib

namespace UnifiedCache.Infra.Traversals

variable {τ : Type*} {calls : List (Option (Traverse τ))} {snapshot : List τ}

/-! ## Calls -/

theorem Idle.rest {call : Option (Traverse τ)} (h : Idle call) : Traverse.rest call = [] := by
  rcases h with rfl | rfl
  · rfl
  · rfl

theorem flatMap_rest_idle (h : ∀ call ∈ calls, Idle call) : calls.flatMap Traverse.rest = [] :=
  List.flatMap_eq_nil_iff.mpr fun call hc => (h call hc).rest

theorem flatMap_rest_active {i : Nat} {call : Option (Traverse τ)} (h : calls[i]? = some call)
    (hother : ∀ (j : Nat) c, calls[j]? = some c → j ≠ i → Idle c) :
    calls.flatMap Traverse.rest = Traverse.rest call := by
  induction calls generalizing i with
  | nil => cases h
  | cons first others ih =>
    rw [List.flatMap_cons]
    cases i with
    | zero =>
      cases h
      rw [flatMap_rest_idle, List.append_nil]
      intro c hc
      obtain ⟨j, hj, rfl⟩ := List.mem_iff_getElem.mp hc
      exact hother (j + 1) _ (by simp [hj]) (Nat.succ_ne_zero j)
    | succ i =>
      have hfirst : Idle first := hother 0 first rfl (Nat.succ_ne_zero i).symm
      rw [hfirst.rest, List.nil_append]
      refine ih h fun j c hc hne => hother (j + 1) c hc ?_
      omega

theorem scan_ne_swap (kept rest : List τ) (processed : Nat) :
    Traverse.scan kept rest processed ≠ .swap := fun h => by cases h

theorem visit_ne_swap (kept rest : List τ) (task : τ) (processed : Nat) :
    Traverse.visit kept task rest processed ≠ .swap := fun h => by cases h

/-- The snapshot of the call that has one, with the flag `drain_`. -/
inductive Active (calls : List (Option (Traverse τ))) : Bool → List τ → Prop where
  | idle (h : ∀ (j : Nat) c, calls[j]? = some c → Idle c) : Active calls false []
  | busy (i : Nat) (t : Traverse τ) (h : calls[i]? = some (some t)) (hne : t ≠ .swap)
      (hother : ∀ (j : Nat) c, calls[j]? = some c → j ≠ i → Idle c) : Active calls true t.held

theorem Active.rest {drain : Bool} (h : Active calls drain snapshot) :
    calls.flatMap Traverse.rest = snapshot := by
  cases h with
  | idle h =>
    refine flatMap_rest_idle fun c hc => ?_
    obtain ⟨j, hj⟩ := List.mem_iff_getElem?.mp hc
    exact h j c hj
  | busy i t h _ hother => exact flatMap_rest_active h hother

theorem Active.append {drain : Bool} (h : Active calls drain snapshot) :
    Active (calls ++ [some .swap]) drain snapshot := by
  have hnew : ∀ (j : Nat) c, (calls ++ [some .swap])[j]? = some c → calls[j]? = some c ∨ Idle c := by
    intro j c hc
    by_cases hj : j < calls.length
    · rw [List.getElem?_append_left hj] at hc
      exact .inl hc
    · rw [List.getElem?_append_right (Nat.le_of_not_lt hj)] at hc
      exact .inr (.inr (List.mem_singleton.mp (List.mem_of_getElem? hc)))
  cases h with
  | idle h =>
    refine .idle fun j c hc => ?_
    rcases hnew j c hc with hc | hc
    · exact h j c hc
    · exact hc
  | busy i t h hne hother =>
    refine .busy i t ?_ hne fun j c hc hj => ?_
    · rw [List.getElem?_append_left (List.getElem?_eq_some_iff.mp h).1]
      exact h
    · rcases hnew j c hc with hc | hc
      · exact hother j c hc hj
      · exact hc

theorem Active.refused (h : Active calls true snapshot) {i : Nat}
    (hi : calls[i]? = some (some .swap)) : Active (calls.set i none) true snapshot := by
  cases h with
  | busy k t hk hne hother =>
    have hik : i ≠ k := by
      rintro rfl
      rw [hi] at hk
      cases hk
      exact hne rfl
    refine .busy k t ?_ hne fun j c hc hj => ?_
    · rw [List.getElem?_set_ne hik]
      exact hk
    · by_cases hij : i = j
      · subst hij
        rw [List.getElem?_set_self (List.getElem?_eq_some_iff.mp hi).1] at hc
        cases hc
        exact .inl rfl
      · rw [List.getElem?_set_ne hij] at hc
        exact hother j c hc hj

theorem Active.begin (h : Active calls false snapshot) {i : Nat}
    (hi : calls[i]? = some (some .swap)) {t : Traverse τ} (ht : t ≠ .swap) :
    snapshot = [] ∧ Active (calls.set i (some t)) true t.held := by
  cases h with
  | idle h =>
    refine ⟨rfl, .busy i t ?_ ht fun j c hc hj => ?_⟩
    · exact List.getElem?_set_self (List.getElem?_eq_some_iff.mp hi).1
    · rw [List.getElem?_set_ne hj.symm] at hc
      exact h j c hc

theorem Active.own {drain : Bool} (h : Active calls drain snapshot) {i : Nat} {t : Traverse τ}
    (hi : calls[i]? = some (some t)) (ht : t ≠ .swap) :
    drain = true ∧ snapshot = t.held ∧
      (∀ t', t' ≠ .swap → Active (calls.set i (some t')) true t'.held) ∧
      Active (calls.set i none) false [] := by
  have hidle : ¬ Idle (some t) := by
    rintro (hc | hc)
    · cases hc
    · exact ht (Option.some.inj hc)
  cases h with
  | idle h => exact absurd (h i _ hi) hidle
  | busy k t' hk hne hother =>
    have hik : i = k := by
      by_contra hik
      exact hidle (hother i _ hi hik)
    subst hik
    rw [hi] at hk
    cases hk
    have hlt := (List.getElem?_eq_some_iff.mp hi).1
    refine ⟨rfl, rfl, fun t' ht' => .busy i t' (List.getElem?_set_self hlt) ht' fun j c hc hj => ?_,
      .idle fun j c hc => ?_⟩
    · rw [List.getElem?_set_ne hj.symm] at hc
      exact hother j c hc hj
    · by_cases hij : i = j
      · subst hij
        rw [List.getElem?_set_self hlt] at hc
        cases hc
        exact .inl rfl
      · rw [List.getElem?_set_ne hij] at hc
        exact hother j c hc fun hji => hij hji.symm

/-! ## The invariant -/

variable [DecidableEq τ] {s s' : Traversals τ} {nWorker : Nat}

/-- **The invariant**, with the snapshot of the call that has one. -/
structure Inv (s : Traversals τ) (snapshot : List τ) : Prop where
  order : s.unvisited = s.taken ++ s.queue.taskQ ++ snapshot ++ s.queue.taskPending
  pushed : s.pushed.Nodup
  visited : s.visited.Nodup
  known : ∀ task ∈ s.visited, task ∈ s.pushed
  active : Active s.calls s.queue.drain snapshot
  quiet : s.queue.drain = false → s.queue.taskPending = []

theorem inv_start : Inv (start : Traversals τ) [] where
  order := rfl
  pushed := .nil
  visited := .nil
  known _ h := by cases h
  active := .idle fun _ _ h => by cases h
  quiet _ := rfl

theorem Inv.push (hi : Inv s snapshot) {tasks : List τ}
    (h : s.step nWorker (.push tasks) = some s') : Inv s' snapshot := by
  simp only [step] at h
  split_ifs at h with hnew
  cases h
  obtain ⟨hnodup, hfresh⟩ := hnew
  have hunvisited : (s.pushed ++ tasks).filter (fun task => task ∉ s.visited) =
      s.unvisited ++ tasks := by
    rw [List.filter_append, unvisited]
    refine congrArg _ (List.filter_eq_self.mpr fun task ht => decide_eq_true fun hv => ?_)
    exact hfresh task ht (hi.known task hv)
  refine ⟨?_, ?_, hi.visited, fun task ht => ?_, ?_, ?_⟩
  · change (s.pushed ++ tasks).filter (fun task => task ∉ s.visited) = _
    rw [hunvisited, hi.order]
    unfold WaitQueue.push
    by_cases hd : s.queue.drain = true
    · rw [if_pos hd]
      simp only [List.append_assoc]
    · have hdrain : s.queue.drain = false := by simpa using hd
      have hpending := hi.quiet hdrain
      have hsnap : snapshot = [] := by
        have hactive := hi.active
        rw [hdrain] at hactive
        cases hactive
        rfl
      rw [if_neg hd, hpending, hsnap]
      simp only [List.append_assoc, List.append_nil]
  · refine List.nodup_append.mpr ⟨hi.pushed, hnodup, ?_⟩
    rintro a ha b hb rfl
    exact hfresh a hb ha
  · exact List.mem_append_left _ (hi.known task ht)
  · have hdrain : (s.queue.push tasks).drain = s.queue.drain := by
      unfold WaitQueue.push
      split_ifs <;> rfl
    rw [hdrain]
    exact hi.active
  · unfold WaitQueue.push
    intro hd
    split_ifs at hd ⊢ with hdrain
    · rw [hdrain] at hd
      cases hd
    · exact hi.quiet hd

theorem Inv.take (hi : Inv s snapshot) (h : s.step nWorker .take = some s') : Inv s' snapshot := by
  obtain ⟨⟨task, queue⟩, hpop, heq⟩ := Option.map_eq_some_iff.mp h
  cases heq
  rcases hq : s.queue with ⟨_ | ⟨first, others⟩, pending, drain⟩
  · rw [hq] at hpop
    cases hpop
  · rw [hq] at hpop
    cases hpop
    have horder := hi.order
    have hactive := hi.active
    have hquiet := hi.quiet
    rw [hq] at horder hactive hquiet
    refine { hi with order := ?_, active := hactive, quiet := hquiet }
    refine horder.trans ?_
    simp only [List.append_assoc, List.cons_append, List.nil_append]

theorem unvisited_visit (hi : Inv s snapshot) {kept rest : List τ} {task : τ}
    (hsnap : snapshot = kept ++ task :: rest) :
    s.pushed.filter (fun t => t ∉ s.visited ++ [task]) =
        s.taken ++ s.queue.taskQ ++ (kept ++ rest) ++ s.queue.taskPending ∧
      task ∈ s.pushed ∧ task ∉ s.visited := by
  have horder : s.unvisited = (s.taken ++ s.queue.taskQ ++ kept) ++
      task :: (rest ++ s.queue.taskPending) := by
    rw [hi.order, hsnap]
    simp only [List.append_assoc, List.cons_append]
  have hnodup : s.unvisited.Nodup := hi.pushed.filter _
  have hmem : task ∈ s.unvisited := by
    rw [horder]
    exact List.mem_append_right _ List.mem_cons_self
  have htask := List.mem_filter.mp hmem
  refine ⟨?_, htask.1, of_decide_eq_true htask.2⟩
  have hfilter : s.pushed.filter (fun t => t ∉ s.visited ++ [task]) =
      s.unvisited.filter fun t => t ≠ task := by
    rw [unvisited, List.filter_filter]
    refine List.filter_congr fun t _ => ?_
    simp [and_comm]
  rw [horder] at hnodup
  obtain ⟨hleft, hright, hdisj⟩ := List.nodup_append.mp hnodup
  have hno : task ∉ rest ++ s.queue.taskPending := (List.nodup_cons.mp hright).1
  rw [hfilter, horder, List.filter_append, List.filter_cons_of_neg (by simp)]
  rw [List.filter_eq_self.mpr fun t ht => decide_eq_true (hdisj t ht task List.mem_cons_self),
    List.filter_eq_self.mpr fun t ht => decide_eq_true (ne_of_mem_of_not_mem ht hno)]
  simp only [List.append_assoc]

theorem Inv.visitedStep (hi : Inv s snapshot) {i : Nat}
    (h : s.step nWorker (.visited i) = some s') : ∃ snapshot', Inv s' snapshot' := by
  simp only [step] at h
  split at h
  · rename_i kept task rest processed hcall
    cases h
    obtain ⟨hdrain, hsnap, hset, -⟩ := hi.active.own hcall (visit_ne_swap _ _ _ _)
    obtain ⟨hfilter, hpushed, hnew⟩ := unvisited_visit hi hsnap
    refine ⟨kept ++ rest, ⟨hfilter, hi.pushed, ?_, fun t ht => ?_, ?_, hi.quiet⟩⟩
    · refine List.nodup_append.mpr ⟨hi.visited, List.nodup_singleton task, ?_⟩
      rintro a ha b hb rfl
      rw [List.mem_singleton.mp hb] at ha
      exact hnew ha
    · rcases List.mem_append.mp ht with ht | ht
      · exact hi.known t ht
      · rw [List.mem_singleton.mp ht]
        exact hpushed
    · rw [hdrain]
      exact hset (.scan kept rest processed) (scan_ne_swap _ _ _)
  · cases h

/-- **One step of a call.** -/
theorem Inv.traverse (hi : Inv s snapshot) {i : Nat} {earlyStop filter : Bool}
    (h : s.step nWorker (.traverse i earlyStop filter) = some s') :
    ∃ snapshot', Inv s' snapshot' := by
  simp only [step] at h
  split at h
  · rename_i call hcall
    obtain ⟨⟨o, q⟩, hstep, heq⟩ := Option.map_eq_some_iff.mp h
    cases heq
    have horder := hi.order
    cases call with
    | swap =>
      simp only [Traverse.step, WaitQueue.swap] at hstep
      by_cases hd : s.queue.drain = true
      · rw [if_pos hd] at hstep
        cases hstep
        refine ⟨snapshot, { hi with active := ?_ }⟩
        have hactive := hi.active
        rw [hd] at hactive ⊢
        exact hactive.refused hcall
      · rw [if_neg hd] at hstep
        cases hstep
        have hdrain : s.queue.drain = false := by simpa using hd
        have hactive := hi.active
        rw [hdrain] at hactive
        obtain ⟨rfl, hbegin⟩ := hactive.begin hcall (scan_ne_swap [] s.queue.taskQ 0)
        refine ⟨s.queue.taskQ, { hi with order := ?_, active := hbegin, quiet := fun hc => ?_ }⟩
        · refine horder.trans ?_
          simp only [List.append_nil]
        · cases hc
    | visit kept task rest processed => cases hstep
    | scan kept rest processed =>
      obtain ⟨hdrain, rfl, hset, -⟩ := hi.active.own hcall (scan_ne_swap _ _ _)
      -- the snapshot stays, whatever the answers are
      have hstay : ∀ t : Traverse τ, t ≠ .swap → t.held = kept ++ rest →
          Inv { s with calls := s.calls.set i (some t) } (kept ++ rest) := by
        intro t ht hheld
        refine { hi with active := ?_ }
        have := hset t ht
        rw [hheld] at this
        rw [hdrain]
        exact this
      refine ⟨kept ++ rest, ?_⟩
      cases rest with
      | nil =>
        cases hstep
        exact hstay _ (by intro hc; cases hc) (List.append_nil kept).symm
      | cons task rest =>
        simp only [Traverse.step] at hstep
        split_ifs at hstep
        · cases hstep
          exact hstay _ (by intro hc; cases hc) rfl
        · cases hstep
          exact hstay _ (visit_ne_swap _ _ _ _) rfl
        · cases hstep
          exact hstay _ (by intro hc; cases hc) (by simp [Traverse.held])
        · cases hstep
          exact hstay _ (scan_ne_swap _ _ _) (by simp [Traverse.held])
    | splice kept rest =>
      obtain ⟨hdrain, rfl, hset, -⟩ := hi.active.own hcall (by intro hc; cases hc)
      cases hstep
      refine ⟨rest, { hi with order := ?_, active := ?_ }⟩
      · refine horder.trans ?_
        simp only [WaitQueue.splice, Traverse.held, List.append_assoc]
      · change Active _ s.queue.drain rest
        rw [hdrain]
        exact hset (.scan [] rest 0) (scan_ne_swap _ _ _)
    | finish snapshot =>
      obtain ⟨-, rfl, -, hnone⟩ := hi.active.own hcall (by intro hc; cases hc)
      cases hstep
      refine ⟨[], { hi with order := ?_, active := hnone, quiet := fun _ => rfl }⟩
      refine horder.trans ?_
      simp only [WaitQueue.finish, List.append_assoc, List.append_nil]
  · cases h

theorem Inv.step {e : TraversalEvent τ} (hi : Inv s snapshot) (h : s.step nWorker e = some s') :
    ∃ snapshot', Inv s' snapshot' := by
  cases e with
  | push tasks => exact ⟨snapshot, hi.push h⟩
  | take => exact ⟨snapshot, hi.take h⟩
  | call =>
    cases h
    exact ⟨snapshot, { hi with active := hi.active.append }⟩
  | traverse i earlyStop filter => exact hi.traverse h
  | visited i => exact hi.visitedStep h

/-! ## Conservation -/

theorem Inv.places (hi : Inv s snapshot) : s.places.Perm s.pushed := by
  have hvisited : (s.pushed.filter fun task => !decide (task ∉ s.visited)).Perm s.visited := by
    refine (List.perm_ext_iff_of_nodup (hi.pushed.filter _) hi.visited).mpr fun task => ?_
    rw [List.mem_filter]
    simp only [decide_not, Bool.not_not, decide_eq_true_eq]
    exact ⟨fun h => h.2, fun h => ⟨hi.known task h, h⟩⟩
  have hsplit := List.filter_append_perm (fun task => decide (task ∉ s.visited)) s.pushed
  have horder := hi.order
  refine List.perm_iff_count.mpr fun task => ?_
  have h1 := hsplit.count_eq task
  have h2 := hvisited.count_eq task
  have h3 := congrArg (List.count task) horder
  rw [Traversals.places, hi.active.rest]
  simp only [unvisited, List.count_append] at h1 h2 h3 ⊢
  omega

end Traversals

open Traversals

/-- **Traversals neither lose nor duplicate work**: every task that was pushed is in one place, workers
take the unvisited tasks in the order in which they were pushed, and when no call has a snapshot
nothing is pending. -/
theorem traversals_conserve (τ : Type*) [DecidableEq τ] (nWorker : Nat) (s : Traversals τ)
    (hs : (traversalMachine τ nWorker).Reachable s) :
    (s.places.Perm s.pushed ∧ s.places.Nodup) ∧ s.taken <+: s.unvisited ∧
    ((∀ call ∈ s.calls, Idle call) → s.queue.drain = false ∧ s.queue.taskPending = []) := by
  obtain ⟨snapshot, hi⟩ : ∃ snapshot, Inv s snapshot := by
    refine Machine.Reach.inv (I := fun s : Traversals τ => ∃ snapshot, Inv s snapshot) ?_ ?_ hs
    · rintro s rfl
      exact ⟨[], inv_start⟩
    · rintro s e s' ⟨snapshot, hi⟩ _ hstep
      exact hi.step hstep
  refine ⟨⟨hi.places, hi.places.nodup_iff.mpr hi.pushed⟩, ?_, fun hidle => ?_⟩
  · rw [hi.order]
    exact ⟨s.queue.taskQ ++ snapshot ++ s.queue.taskPending, by simp only [List.append_assoc]⟩
  · have hdrain : s.queue.drain = false := by
      have hactive := hi.active
      cases hd : s.queue.drain with
      | false => rfl
      | true =>
        rw [hd] at hactive
        cases hactive with
        | busy i t h hne _ =>
          rcases hidle _ (List.mem_of_getElem? h) with hc | hc
          · cases hc
          · exact absurd (Option.some.inj hc) hne
    exact ⟨hdrain, hi.quiet hdrain⟩

/-- Two workers: 2 is visited, 1 and 3 go back and 1 is taken, 5 is parked meanwhile, and the traversal
stops at 4. -/
theorem traversals_conserve_five : ∃ s, (traversalMachine Nat 2).Reachable s ∧
    (s.queue.taskQ = [3, 4, 5] ∧ s.taken = [1] ∧ s.visited = [2]) ∧ s.places.Perm [1, 2, 3, 4, 5] := by
  obtain ⟨s, hs, hp⟩ := Machine.exists_reachable_of_run (M := traversalMachine Nat 2) (s := .start)
    (l := [.call, .push [1, 2, 3, 4], .traverse 0 false false, .push [5], .traverse 0 false false,
      .traverse 0 false true, .visited 0, .traverse 0 false false, .traverse 0 false false, .take,
      .traverse 0 true true, .traverse 0 false false]) (p := fun s => s.queue.taskQ = [3, 4, 5] ∧
      s.taken = [1] ∧ s.visited = [2] ∧ s.pushed = [1, 2, 3, 4, 5]) rfl (by decide +kernel)
  obtain ⟨hq, ht, hv, hpushed⟩ := hp
  refine ⟨s, hs, ⟨hq, ht, hv⟩, ?_⟩
  rw [← hpushed]
  exact (traversals_conserve Nat 2 s hs).1.1

end UnifiedCache.Infra
