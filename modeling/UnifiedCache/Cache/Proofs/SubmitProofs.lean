import UnifiedCache.Cache.Submit
import UnifiedCache.Infra.Proofs.SpscRingQueueProofs
import Mathlib.Data.Fintype.Basic

/-!
# Proofs: submitting tasks

`TaskWrapper::Submit` gives its lock back before it dispatches, so nothing keeps two callers out of
`TryPush` of the same ring. In the runs in which no caller writes its slot in a race every accepted
task is handed to the consumer once; two callers that read the same `head_` write the same slot.
-/

open Function Lib UnifiedCache.Infra

namespace UnifiedCache.Infra.RingUse

variable {τ α : Type*}

theorem popStep_frame (u : RingUse τ α) :
    u.popStep.pushing = u.pushing ∧ u.popStep.pushed = u.pushed := by
  unfold popStep
  split <;> exact ⟨rfl, rfl⟩

variable [DecidableEq τ]

theorem pushStep_frame {u u' : RingUse τ α} {t : τ} {answer : Option Bool}
    (h : u.pushStep t = some (u', answer)) : ∃ v pc, u.pushing t = some (v, pc) ∧
      (∀ t', t' ≠ t → u'.pushing t' = u.pushing t') ∧
      ((answer = none ∧ (∃ pc', u'.pushing t = some (v, pc')) ∧ u'.pushed = u.pushed) ∨
        ∃ ok, answer = some ok ∧ u'.pushing t = none ∧
          u'.pushed = if ok then u.pushed ++ [v] else u.pushed) := by
  unfold pushStep at h
  split at h
  · cases h
  · rename_i v pc hpush
    refine ⟨v, pc, hpush, ?_⟩
    split at h
    · rename_i ring pc' _
      cases h
      exact ⟨fun t' ht => update_of_ne ht _ _,
        .inl ⟨rfl, ⟨pc', update_self ..⟩, rfl⟩⟩
    · rename_i ring ok _
      cases h
      exact ⟨fun t' ht => update_of_ne ht _ _,
        .inr ⟨ok, rfl, update_self .., rfl⟩⟩

end UnifiedCache.Infra.RingUse

namespace UnifiedCache.Cache.Submit

variable {τ : Type*} [DecidableEq τ] {waitingQueueDepth : Nat} {s s' : State τ}

/-- The task of a thread whose push has not returned. -/
def SubmitPc.pending : SubmitPc → Option TransTask
  | .emplace task | .up task | .push task => some task
  | .out _ | .fail _ | .done _ => none

/-- **The invariant**: the rings are in order, and every task has been pushed once, by the thread it
belongs to. -/
structure Inv (waitingQueueDepth : Nat) (s : State τ) : Prop where
  ring : ∀ k, ∃ content, RingUse.Inv waitingQueueDepth (s.waiting k) content
  nodup : ∀ k, (s.waiting k).pushed.Nodup
  pushed_lt : ∀ k, ∀ x ∈ (s.waiting k).pushed, x.id < s.nextId
  pending_lt : ∀ t x, (s.pc t).pending = some x → x.id < s.nextId
  pending_inj : ∀ t t' x x', (s.pc t).pending = some x → (s.pc t').pending = some x' →
    x.id = x'.id → t = t'
  fresh : ∀ k, ∀ x ∈ (s.waiting k).pushed, ∀ t y, (s.pc t).pending = some y → x.id ≠ y.id
  pushing : ∀ k t v pc, (s.waiting k).pushing t = some (v, pc) → s.pc t = .push v ∧ v.type = k

theorem Inv.goto (h : Inv waitingQueueDepth s) {t : τ} {pc : SubmitPc}
    (hpc : ∀ x, pc.pending = some x → (s.pc t).pending = some x)
    (hno : ∀ k, (s.waiting k).pushing t = none) : Inv waitingQueueDepth (s.goto t pc) := by
  have hpend : ∀ t' x, ((s.goto t pc).pc t').pending = some x → (s.pc t').pending = some x := by
    intro t' x hx
    change (update s.pc t pc t').pending = some x at hx
    by_cases ht : t' = t
    · subst ht
      rw [update_self] at hx
      exact hpc x hx
    · rwa [update_of_ne ht] at hx
  refine { h with
    pending_lt := fun t' x hx => h.pending_lt t' x (hpend t' x hx)
    pending_inj := fun t1 t2 x y hx hy hid =>
      h.pending_inj t1 t2 x y (hpend t1 x hx) (hpend t2 y hy) hid
    fresh := fun k x hx t' y hy => h.fresh k x hx t' y (hpend t' y hy)
    pushing := fun k t' v p hv => ?_ }
  have hne : t' ≠ t := by
    rintro rfl
    change (s.waiting k).pushing t' = some (v, p) at hv
    rw [hno k] at hv
    cases hv
  obtain ⟨h1, h2⟩ := h.pushing k t' v p hv
  refine ⟨?_, h2⟩
  change update s.pc t pc t' = _
  rw [update_of_ne hne]
  exact h1

omit [DecidableEq τ] in
theorem Inv.not_pushing (h : Inv waitingQueueDepth s) {t : τ} (hpc : ∀ x, s.pc t ≠ .push x)
    (k : Kind) : (s.waiting k).pushing t = none := by
  cases hp : (s.waiting k).pushing t with
  | none => rfl
  | some x => exact absurd (h.pushing k t x.1 x.2 hp).1 (hpc x.1)

omit [DecidableEq τ] in
theorem setWaiting_waiting (s : State τ) (k k' : Kind) (u : RingUse τ TransTask) :
    (s.setWaiting k u).waiting k' = if k' = k then u else s.waiting k' := by
  by_cases hk : k' = k
  · subst hk
    simp [State.setWaiting]
  · simp [State.setWaiting, hk]

omit [DecidableEq τ] in
theorem Inv.setWaiting (h : Inv waitingQueueDepth s) {k : Kind} {u : RingUse τ TransTask}
    (hring : ∃ content, RingUse.Inv waitingQueueDepth u content)
    (hpushed : u.pushed = (s.waiting k).pushed)
    (hpushing : ∀ t v p, u.pushing t = some (v, p) → s.pc t = .push v ∧ v.type = k) :
    Inv waitingQueueDepth (s.setWaiting k u) := by
  have hsame : ∀ k', ((s.setWaiting k u).waiting k').pushed = (s.waiting k').pushed := by
    intro k'
    rw [setWaiting_waiting]
    split
    · rename_i hk
      rw [hpushed, hk]
    · rfl
  refine
    { ring := fun k' => ?_
      nodup := fun k' => by rw [hsame]; exact h.nodup k'
      pushed_lt := fun k' => by rw [hsame]; exact h.pushed_lt k'
      pending_lt := h.pending_lt
      pending_inj := h.pending_inj
      fresh := fun k' => by rw [hsame]; exact h.fresh k'
      pushing := fun k' t v p hv => ?_ }
  · rw [setWaiting_waiting]
    split
    · exact hring
    · exact h.ring k'
  · rw [setWaiting_waiting] at hv
    split at hv
    · rename_i hk
      subst hk
      exact hpushing t v p hv
    · exact h.pushing k' t v p hv

theorem Inv.accept (h : Inv waitingQueueDepth s) {t : τ} {task : TransTask}
    {u : RingUse τ TransTask} {answer : Option Answer} (hpc : s.pc t = .push task)
    (hring : ∃ content, RingUse.Inv waitingQueueDepth u content)
    (hpushed : u.pushed = (s.waiting task.type).pushed ++ [task])
    (hother : ∀ t', t' ≠ t → u.pushing t' = (s.waiting task.type).pushing t')
    (hme : u.pushing t = none) :
    Inv waitingQueueDepth ((s.setWaiting task.type u).goto t (.out answer)) := by
  have hmine : (s.pc t).pending = some task := by rw [hpc]; rfl
  have hmem : ∀ k, ∀ x ∈ ((s.setWaiting task.type u).waiting k).pushed,
      x ∈ (s.waiting k).pushed ∨ x = task := by
    intro k x hx
    rw [setWaiting_waiting] at hx
    split at hx
    · rename_i hk
      subst hk
      rw [hpushed] at hx
      simpa using hx
    · exact .inl hx
  have hpend : ∀ t' x, (((s.setWaiting task.type u).goto t (.out answer)).pc t').pending = some x →
      t' ≠ t ∧ (s.pc t').pending = some x := by
    intro t' x hx
    change (update s.pc t (.out answer) t').pending = some x at hx
    by_cases ht : t' = t
    · subst ht
      rw [update_self] at hx
      cases hx
    · rw [update_of_ne ht] at hx
      exact ⟨ht, hx⟩
  refine
    { ring := fun k => ?_
      nodup := fun k => ?_
      pushed_lt := fun k x hx => ?_
      pending_lt := fun t' x hx => h.pending_lt t' x (hpend t' x hx).2
      pending_inj := fun t1 t2 x y hx hy hid =>
        h.pending_inj t1 t2 x y (hpend t1 x hx).2 (hpend t2 y hy).2 hid
      fresh := fun k x hx t' y hy => ?_
      pushing := fun k t' v p hv => ?_ }
  · change ∃ content, RingUse.Inv _ ((s.setWaiting task.type u).waiting k) content
    rw [setWaiting_waiting]
    split
    · exact hring
    · exact h.ring k
  · change ((s.setWaiting task.type u).waiting k).pushed.Nodup
    rw [setWaiting_waiting]
    split
    · rw [hpushed]
      refine List.nodup_append.mpr ⟨h.nodup _, by simp, fun x hx y hy => ?_⟩
      rw [List.mem_singleton] at hy
      subst hy
      rintro rfl
      exact h.fresh _ x hx t x hmine rfl
    · exact h.nodup k
  · rcases hmem k x hx with hx | rfl
    · exact h.pushed_lt k x hx
    · exact h.pending_lt t x hmine
  · obtain ⟨ht, hy'⟩ := hpend t' y hy
    rcases hmem k x hx with hx | rfl
    · exact h.fresh k x hx t' y hy'
    · exact fun hid => ht (h.pending_inj t t' x y hmine hy' hid).symm
  · change ((s.setWaiting task.type u).waiting k).pushing t' = some (v, p) at hv
    rw [setWaiting_waiting] at hv
    have hne : t' ≠ t := by
      rintro rfl
      split at hv
      · rw [hme] at hv
        cases hv
      · rename_i hk
        obtain ⟨h1, h2⟩ := h.pushing k t' v p hv
        rw [hpc] at h1
        cases h1
        exact hk h2.symm
    have hold : (s.waiting k).pushing t' = some (v, p) := by
      split at hv
      · rename_i hk
        subst hk
        rw [hother t' hne] at hv
        exact hv
      · exact hv
    obtain ⟨h1, h2⟩ := h.pushing k t' v p hold
    refine ⟨?_, h2⟩
    change update s.pc t _ t' = _
    rw [update_of_ne hne]
    exact h1

/-- **A thread in `TryPush` takes its next access.** -/
theorem Inv.push (h : Inv waitingQueueDepth s) {t : τ} {task : TransTask} (hpc : s.pc t = .push task)
    (hC : (s.waiting task.type).Unraced t) {u : RingUse τ TransTask} {answer : Option Bool}
    (hstep : (s.waiting task.type).pushStep t = some (u, answer)) :
    Inv waitingQueueDepth (match answer with
      | none => s.setWaiting task.type u
      | some true => (s.setWaiting task.type u).goto t (.out (some (.handle task.id)))
      | some false => (s.setWaiting task.type u).goto t (.fail task)) := by
  obtain ⟨content, hring⟩ := h.ring task.type
  have hring' := hring.pushStep hC hstep
  obtain ⟨v, p, hpush, hother, hans⟩ := RingUse.pushStep_frame hstep
  obtain ⟨hv, -⟩ := h.pushing _ t v p hpush
  rw [hpc] at hv
  cases hv
  rcases hans with ⟨rfl, ⟨pc', hme⟩, hpushed⟩ | ⟨ok, rfl, hme, hpushed⟩
  · refine h.setWaiting hring' hpushed fun t' w q hw => ?_
    by_cases ht : t' = t
    · subst ht
      rw [hme] at hw
      cases hw
      exact ⟨hpc, rfl⟩
    · rw [hother t' ht] at hw
      exact h.pushing _ t' w q hw
  · cases ok with
    | true => exact h.accept hpc hring' hpushed hother hme
    | false =>
      refine (h.setWaiting hring' hpushed fun t' w q hw => ?_).goto (fun x hx => by cases hx)
        fun k => ?_
      · by_cases ht : t' = t
        · subst ht
          rw [hme] at hw
          cases hw
        · rw [hother t' ht] at hw
          exact h.pushing _ t' w q hw
      · rw [setWaiting_waiting]
        split
        · exact hme
        · rename_i hk
          cases hp : (s.waiting k).pushing t with
          | none => rfl
          | some x =>
            obtain ⟨h1, h2⟩ := h.pushing k t x.1 x.2 hp
            rw [hpc] at h1
            cases h1
            exact absurd h2.symm hk

theorem Inv.submit (h : Inv waitingQueueDepth s) {t : τ} {answer : Option Answer}
    (hpc : s.pc t = .out answer) (type : Kind) :
    Inv waitingQueueDepth ({ s with nextId := s.nextId + 1 }.goto t (.emplace ⟨s.nextId, type⟩)) := by
  have hno := h.not_pushing (t := t) fun x hx => by rw [hpc] at hx; cases hx
  have hpend : ∀ t' x, ((update s.pc t (.emplace ⟨s.nextId, type⟩)) t').pending = some x →
      (t' = t ∧ x.id = s.nextId) ∨ t' ≠ t ∧ (s.pc t').pending = some x := by
    intro t' x hx
    by_cases ht : t' = t
    · subst ht
      rw [update_self] at hx
      cases hx
      exact .inl ⟨rfl, rfl⟩
    · rw [update_of_ne ht] at hx
      exact .inr ⟨ht, hx⟩
  refine
    { ring := h.ring
      nodup := h.nodup
      pushed_lt := fun k x hx => Nat.lt_succ_of_lt (h.pushed_lt k x hx)
      pending_lt := fun t' x hx => ?_
      pending_inj := fun t1 t2 x y hx hy hid => ?_
      fresh := fun k x hx t' y hy => ?_
      pushing := fun k t' v p hv => ?_ }
  · change x.id < s.nextId + 1
    rcases hpend t' x hx with ⟨-, hid⟩ | ⟨-, hx'⟩
    · omega
    · exact Nat.lt_succ_of_lt (h.pending_lt t' x hx')
  · rcases hpend t1 x hx with ⟨h1, hid1⟩ | ⟨h1, hx'⟩ <;>
      rcases hpend t2 y hy with ⟨h2, hid2⟩ | ⟨h2, hy'⟩
    · rw [h1, h2]
    · have := h.pending_lt t2 y hy'
      omega
    · have := h.pending_lt t1 x hx'
      omega
    · exact h.pending_inj t1 t2 x y hx' hy' hid
  · rcases hpend t' y hy with ⟨-, hid⟩ | ⟨-, hy'⟩
    · have := h.pushed_lt k x hx
      omega
    · exact h.fresh k x hx t' y hy'
  · have hne : t' ≠ t := by
      rintro rfl
      change (s.waiting k).pushing t' = some (v, p) at hv
      rw [hno k] at hv
      cases hv
    obtain ⟨h1, h2⟩ := h.pushing k t' v p hv
    refine ⟨?_, h2⟩
    change update s.pc t _ t' = _
    rw [update_of_ne hne]
    exact h1

theorem Inv.up (h : Inv waitingQueueDepth s) {t : τ} {task : TransTask} (hpc : s.pc t = .up task)
    (waiter : Nat → Nat) :
    Inv waitingQueueDepth (({ s with waiter := waiter }.setWaiting task.type
      ((s.waiting task.type).enter t task)).goto t (.push task)) := by
  have hno := h.not_pushing (t := t) fun x hx => by rw [hpc] at hx; cases hx
  have hring : ∀ k, ((({ s with waiter := waiter }.setWaiting task.type
      ((s.waiting task.type).enter t task)).goto t (.push task)).waiting k) =
        if k = task.type then (s.waiting task.type).enter t task else s.waiting k := by
    intro k
    exact setWaiting_waiting { s with waiter := waiter } task.type k _
  have hsame : ∀ k, ((({ s with waiter := waiter }.setWaiting task.type
      ((s.waiting task.type).enter t task)).goto t (.push task)).waiting k).pushed =
        (s.waiting k).pushed := by
    intro k
    rw [hring]
    split
    · rename_i hk
      rw [hk]
      rfl
    · rfl
  have hpend : ∀ t' x, ((update s.pc t (.push task)) t').pending = some x →
      (s.pc t').pending = some x := by
    intro t' x hx
    by_cases ht : t' = t
    · subst ht
      rw [update_self] at hx
      rw [hpc]
      exact hx
    · rwa [update_of_ne ht] at hx
  refine
    { ring := fun k => ?_
      nodup := fun k => by rw [hsame]; exact h.nodup k
      pushed_lt := fun k => by rw [hsame]; exact h.pushed_lt k
      pending_lt := fun t' x hx => h.pending_lt t' x (hpend t' x hx)
      pending_inj := fun t1 t2 x y hx hy hid =>
        h.pending_inj t1 t2 x y (hpend t1 x hx) (hpend t2 y hy) hid
      fresh := fun k x hx t' y hy => by
        rw [hsame] at hx
        exact h.fresh k x hx t' y (hpend t' y hy)
      pushing := fun k t' v p hv => ?_ }
  · rw [hring]
    split
    · obtain ⟨content, hc⟩ := h.ring task.type
      exact ⟨content, hc.enter t task⟩
    · exact h.ring k
  · rw [hring] at hv
    change update s.pc t (.push task) t' = _ ∧ _
    by_cases ht : t' = t
    · subst ht
      rw [update_self]
      split at hv
      · rename_i hk
        simp only [RingUse.enter, update_self, Option.some.injEq, Prod.mk.injEq] at hv
        rw [← hv.1]
        exact ⟨rfl, hk.symm⟩
      · rw [hno k] at hv
        cases hv
    · rw [update_of_ne ht]
      split at hv
      · rename_i hk
        subst hk
        simp only [RingUse.enter, update_of_ne ht] at hv
        exact h.pushing _ t' v p hv
      · exact h.pushing k t' v p hv

theorem Inv.step (h : Inv waitingQueueDepth s) {e : Event τ} (hC : Unraced s e)
    (hstep : s.step e = some s') : Inv waitingQueueDepth s' := by
  cases e with
  | submit t type =>
    simp only [State.step] at hstep
    split at hstep
    · rename_i answer hpc
      cases hstep
      exact h.submit hpc type
    · cases hstep
  | consume type =>
    cases hstep
    obtain ⟨hpushing, hpushed⟩ := RingUse.popStep_frame (s.waiting type)
    obtain ⟨content, hring⟩ := h.ring type
    refine h.setWaiting hring.popStep hpushed fun t v p hv => ?_
    rw [hpushing] at hv
    exact h.pushing type t v p hv
  | step t =>
    simp only [State.step, State.callerStep] at hstep
    cases hpc : s.pc t with
    | out answer =>
      rw [hpc] at hstep
      cases hstep
    | emplace task =>
      have hno := h.not_pushing (t := t) fun x hx => by rw [hpc] at hx; cases hx
      simp only [hpc] at hstep
      split_ifs at hstep
      · cases hstep
        exact h.goto (fun x hx => by cases hx) hno
      · cases hstep
        exact Inv.goto (s := { s with tasks := task.id :: s.tasks }) { h with }
          (fun x hx => by rw [hpc]; exact hx) hno
    | up task =>
      simp only [hpc] at hstep
      cases hstep
      exact h.up hpc _
    | push task =>
      simp only [hpc, Option.map_eq_some_iff] at hstep
      obtain ⟨⟨u, answer⟩, hpush, rfl⟩ := hstep
      simp only [Unraced, hpc] at hC
      exact h.push hpc hC hpush
    | fail task =>
      have hno := h.not_pushing (t := t) fun x hx => by rw [hpc] at hx; cases hx
      simp only [hpc] at hstep
      cases hstep
      exact Inv.goto (s := { s with failureSet := task.id :: s.failureSet }) { h with }
        (fun x hx => by cases hx) hno
    | done task =>
      have hno := h.not_pushing (t := t) fun x hx => by rw [hpc] at hx; cases hx
      simp only [hpc] at hstep
      cases hstep
      exact Inv.goto (s := { s with
        waiter := update s.waiter task.id (s.waiter task.id - 1) }) { h with }
        (fun x hx => by cases hx) hno

/-- **Every accepted task is handed over once**, in every run in which no thread writes its slot of a
ring in a race: in both queues. -/
theorem submit_delivers (waitingQueueDepth : Nat) {s : State τ}
    (h : (machine waitingQueueDepth).Reach Unraced s) (k : Kind) : (s.waiting k).Delivers := by
  have hi : Inv waitingQueueDepth s := by
    refine h.inv (I := Inv waitingQueueDepth) ?_ fun s e s' hi hC hstep => hi.step hC hstep
    rintro s ⟨hdepth, rfl⟩
    exact
      { ring := fun _ => ⟨[], RingUse.inv_start (Nat.lt_trans Nat.one_pos hdepth)⟩
        nodup := fun _ => List.nodup_nil
        pushed_lt := fun _ x hx => by cases hx
        pending_lt := fun _ x hx => by cases hx
        pending_inj := fun _ _ x _ hx => by cases hx
        fresh := fun _ x hx => by cases hx
        pushing := fun _ _ v p hv => by cases hv }
  obtain ⟨content, hring⟩ := hi.ring k
  exact hring.delivers (hi.nodup k)

/-- Two threads submit a load task each. Both read `head_` before either stores it, and the second one
writes the slot the first one has written. -/
def raceTrace (a b : τ) : List (Event τ) := List.flatten [
  [.submit a .load, .submit b .load], List.replicate 4 (.step a), List.replicate 4 (.step b),
  [.step a, .step b, .step a, .step b], List.replicate 4 (.consume .load)]

/-- Both pushes report success, the consumer gets the second task only, and no slot holds the first. -/
theorem submit_loses : ∃ s : State (Fin 2), (machine 8).Reachable s ∧
    s.pc 0 = .out (some (.handle 1)) ∧ s.pc 1 = .out (some (.handle 2)) ∧
      (s.waiting .load).popped = [some ⟨2, .load⟩] ∧
      (∀ i : Fin 8, (s.waiting .load).ring.buffer i = none) ∧ ¬ (s.waiting .load).Delivers := by
  obtain ⟨s, hs, hp⟩ := Machine.exists_reachable_of_run (M := machine 8) (s := .start 8)
    (l := raceTrace 0 1) (p := fun s : State (Fin 2) => s.pc 0 = .out (some (.handle 1)) ∧
      s.pc 1 = .out (some (.handle 2)) ∧ (s.waiting .load).pushed = [⟨1, .load⟩, ⟨2, .load⟩] ∧
      (s.waiting .load).popped = [some ⟨2, .load⟩] ∧ ∀ i : Fin 8,
      (s.waiting .load).ring.buffer i = none) ⟨by decide, rfl⟩ (by decide +kernel)
  obtain ⟨h0, h1, hpushed, hpopped, hbuf⟩ := hp
  refine ⟨s, hs, h0, h1, hpopped, hbuf, fun hd => ?_⟩
  obtain ⟨rest, hrest⟩ := hd.inOrder
  rw [hpushed, hpopped] at hrest
  simp at hrest

/-- One thread after the other, both tasks are handed over. -/
theorem submit_delivers_two : ∃ s : State (Fin 2), (machine 8).Reach Unraced s ∧
    (s.waiting .load).popped = [some ⟨1, .load⟩, some ⟨2, .load⟩] ∧
      (s.waiting .load).Delivers := by
  obtain ⟨s, hs, hp⟩ := Machine.exists_reachable_of_run
    (M := (machine 8).guard fun (s : State (Fin 2)) e => decide (Unraced s e)) (s := .start 8)
    (l := List.flatten [[.submit 0 .load, .submit 1 .load], List.replicate 6 (.step 0),
      List.replicate 6 (.step 1), List.replicate 8 (.consume .load)])
    (p := fun s : State (Fin 2) => (s.waiting .load).popped = [some ⟨1, .load⟩, some ⟨2, .load⟩])
    ⟨by decide, rfl⟩ (by decide +kernel)
  have hreach := Machine.Reach.of_guard (C := Unraced) (fun s e _ hc => of_decide_eq_true hc) hs
  exact ⟨s, hreach, hp, submit_delivers 8 hreach .load⟩

end UnifiedCache.Cache.Submit
