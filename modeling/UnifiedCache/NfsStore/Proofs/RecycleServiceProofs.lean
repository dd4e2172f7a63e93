import UnifiedCache.NfsStore.RecycleService

/-!
# The recycle service is started once, if the first call gets ahead

`serviceRunning_` is set by the new thread. A second call of `Trigger` that reads the flag before starts a
second thread, and its assignment to `worker_` ends the process. As long as no call does so, there is one
service thread, and no request is lost: the thread is in a pass or on its way to one.
-/

open Lib

namespace UnifiedCache.NfsStore.RecycleService

variable {s s' : State} {e : Event}

/-! ## What is claimed -/

/-- The thread is in `DoRecycle`, or on its way into it: it has not entered the wait, or is woken. -/
def RecyclerPc.Passes : RecyclerPc → Prop
  | .setRunning | .enter | .woken | .doRecycle => True
  | .blocked | .reset | .exited => False

/-- Triggering is safe. A pass lasts until its request is taken back under the lock. -/
structure Safe (s : State) : Prop where
  once : s.recyclers.length ≤ 1
  alive : s.terminated = false
  alone : s.recyclers.count .doRecycle ≤ 1
  pending : s.recycling = true → s.stop = false → ∃ pc ∈ s.recyclers, pc.Passes ∨ pc = .reset

/-- A call that reads that the service is not running is the first one: no thread is started, and no other
call is about to start one. -/
def FirstStarts (s : State) : Event → Prop
  | .trigger i => s.calls[i]? = some .read → s.serviceRunning = false →
      s.recyclers = [] ∧ .start ∉ s.calls
  | _ => True

instance (s : State) : (e : Event) → Decidable (FirstStarts s e)
  | .trigger i => inferInstanceAs (Decidable (s.calls[i]? = some .read → s.serviceRunning = false →
      s.recyclers = [] ∧ .start ∉ s.calls))
  | .call | .recycler _ | .destroy => isTrue trivial

/-- No pass returns from `DoRecycle` before the service is stopped. -/
def NoReturn (s : State) : Event → Prop
  | .recycler r => s.recyclers[r]? = some .doRecycle → s.stop = true
  | _ => True

/-! ## The invariant -/

/-- The call has started a thread that it has not assigned. -/
def TriggerPc.assigns : TriggerPc → Bool
  | .assign _ => true
  | _ => false

/-- Every thread has one call that starts it, and every started thread one call that assigns it. -/
structure Inv (s : State) : Prop where
  start : s.calls.countP (· = .start) + s.recyclers.length ≤ 1
  assign : s.calls.countP TriggerPc.assigns + (if s.worker.isSome then 1 else 0) ≤ s.recyclers.length
  alive : s.terminated = false
  running : s.serviceRunning = true → s.recyclers ≠ []
  lock : .lock ∈ s.calls → s.recyclers ≠ []
  requested : s.recycling = true → s.recyclers ≠ []
  blocked : .blocked ∈ s.recyclers → s.recycling = false ∧ s.stop = false
  exited : .exited ∈ s.recyclers → s.stop = true

/-- **What the invariant is for.** -/
theorem Inv.safe (h : Inv s) : Safe s where
  once := Nat.le_trans (Nat.le_add_left _ _) h.start
  alive := h.alive
  alone := by
    have hcount : s.recyclers.count .doRecycle ≤ s.recyclers.length := List.count_le_length
    have hstart := h.start
    omega
  pending hrecycling hstop := by
    obtain ⟨pc, rest, hcons⟩ := List.exists_cons_of_ne_nil (h.requested hrecycling)
    have hmem : pc ∈ s.recyclers := by
      rw [hcons]
      exact List.mem_cons_self
    refine ⟨pc, hmem, ?_⟩
    cases pc with
    | setRunning | enter | woken | doRecycle => exact .inl trivial
    | reset => exact .inr rfl
    | blocked =>
      have hidle := (h.blocked hmem).1
      rw [hrecycling] at hidle
      cases hidle
    | exited =>
      have hstopped := h.exited hmem
      rw [hstop] at hstopped
      cases hstopped

theorem inv_new : Inv new := by
  constructor <;> simp [new]

/-! ## Steps of a call -/

theorem countP_set_add {α : Type*} {p : α → Bool} {l : List α} {i : Nat} {x : α} (h : l[i]? = some x)
    (y : α) : (l.set i y).countP p + (if p x then 1 else 0) = l.countP p + if p y then 1 else 0 := by
  obtain ⟨hlt, rfl⟩ := List.getElem?_eq_some_iff.mp h
  have hle : (if p l[i] then 1 else 0) ≤ l.countP p := by
    split
    · rename_i hp
      exact List.countP_pos_iff.mpr ⟨l[i], List.getElem_mem hlt, hp⟩
    · exact Nat.zero_le _
  rw [List.countP_set hlt]
  omega

theorem Inv.setCall {i : Nat} {pc pc' : TriggerPc} (h : Inv s) (hi : s.calls[i]? = some pc)
    (hstart : pc' = .start → s.recyclers = [] ∧ .start ∉ s.calls) (hassign : pc'.assigns = false)
    (hlock : pc' = .lock → s.recyclers ≠ []) : Inv (s.setCall i pc') where
  start := by
    have hcount := countP_set_add (p := (· = .start)) hi pc'
    have hle := h.start
    show (s.calls.set i pc').countP _ + s.recyclers.length ≤ 1
    by_cases hpc : pc' = .start
    · obtain ⟨hnil, hnot⟩ := hstart hpc
      have hzero : s.calls.countP (· = .start) = 0 := by
        rw [List.countP_eq_zero]
        rintro pc hmem hpc
        exact hnot (of_decide_eq_true hpc ▸ hmem)
      rw [hzero] at hcount
      rw [hnil, List.length_nil]
      split at hcount <;> split at hcount <;> omega
    · simp only [hpc, decide_false, Bool.false_eq_true, if_false] at hcount
      omega
  assign := by
    have hcount := countP_set_add (p := TriggerPc.assigns) hi pc'
    have hle := h.assign
    show (s.calls.set i pc').countP _ + (if s.worker.isSome then 1 else 0) ≤ s.recyclers.length
    rw [hassign] at hcount
    simp only [Bool.false_eq_true, if_false] at hcount
    omega
  alive := h.alive
  running := h.running
  lock hmem := (List.mem_or_eq_of_mem_set hmem).elim h.lock fun heq => hlock heq.symm
  requested := h.requested
  blocked := h.blocked
  exited := h.exited

theorem Inv.startThread {i : Nat} (h : Inv s) (hi : s.calls[i]? = some .start) :
    Inv ({ s with recyclers := s.recyclers ++ [RecyclerPc.setRunning] }.setCall i
      (.assign s.recyclers.length)) := by
  have hstart := countP_set_add (p := (· = .start)) hi (.assign s.recyclers.length)
  have hassign := countP_set_add (p := TriggerPc.assigns) hi (.assign s.recyclers.length)
  have hle := h.start
  have hle' := h.assign
  simp only [decide_true, reduceCtorEq, decide_false, Bool.false_eq_true, if_true, if_false] at hstart
  simp only [TriggerPc.assigns, Bool.false_eq_true, if_true, if_false] at hassign
  have hnil : s.recyclers = [] := List.length_eq_zero_iff.mp (by omega)
  have hlength : (s.recyclers ++ [RecyclerPc.setRunning]).length = 1 := by rw [hnil]; rfl
  have hmem : ∀ pc ∈ s.recyclers ++ [RecyclerPc.setRunning], pc = .setRunning := by
    rw [hnil, List.nil_append]
    exact fun pc => List.mem_singleton.mp
  constructor
  · show (s.calls.set i _).countP _ + (s.recyclers ++ [RecyclerPc.setRunning]).length ≤ 1
    omega
  · show (s.calls.set i _).countP _ + (if s.worker.isSome then 1 else 0) ≤
      (s.recyclers ++ [RecyclerPc.setRunning]).length
    omega
  · exact h.alive
  · exact fun _ => List.concat_ne_nil _ _
  · exact fun _ => List.concat_ne_nil _ _
  · exact fun _ => List.concat_ne_nil _ _
  · intro hb
    cases hmem .blocked hb
  · intro he
    cases hmem .exited he

theorem Inv.worker_none {i r : Nat} (h : Inv s) (hi : s.calls[i]? = some (.assign r)) :
    s.worker.isSome = false ∧ s.recyclers ≠ [] := by
  have hpos : 0 < s.calls.countP TriggerPc.assigns :=
    List.countP_pos_iff.mpr ⟨.assign r, List.mem_of_getElem? hi, rfl⟩
  have hstart := h.start
  have hassign := h.assign
  constructor
  · cases hw : s.worker.isSome
    · rfl
    · rw [hw, if_pos rfl] at hassign
      omega
  · intro hnil
    rw [hnil, List.length_nil] at hassign
    omega

theorem Inv.assignThread {i r : Nat} (h : Inv s) (hi : s.calls[i]? = some (.assign r)) :
    Inv ({ s with worker := some r }.setCall i .lock) := by
  obtain ⟨hworker, hne⟩ := h.worker_none hi
  have hstart := countP_set_add (p := (· = .start)) hi .lock
  have hassign := countP_set_add (p := TriggerPc.assigns) hi .lock
  have hle := h.start
  have hle' := h.assign
  simp only [reduceCtorEq, decide_false, Bool.false_eq_true, if_false] at hstart
  simp only [TriggerPc.assigns, Bool.false_eq_true, if_true, if_false] at hassign
  constructor
  · show (s.calls.set i .lock).countP _ + s.recyclers.length ≤ 1
    omega
  · show (s.calls.set i .lock).countP _ + 1 ≤ s.recyclers.length
    omega
  · exact h.alive
  · exact h.running
  · exact fun _ => hne
  · exact h.requested
  · exact h.blocked
  · exact h.exited

/-! ## Waking the thread -/

theorem blocked_notMem_notifyAll (s : State) : .blocked ∉ s.notifyAll.recyclers := by
  intro hmem
  obtain ⟨pc, -, hpc⟩ := List.mem_map.mp hmem
  split at hpc
  · cases hpc
  · rename_i hne
    exact hne hpc

theorem mem_notifyAll {pc : RecyclerPc} (hne : pc ≠ .woken) (h : pc ∈ s.notifyAll.recyclers) :
    pc ∈ s.recyclers := by
  obtain ⟨pc', hmem, hpc⟩ := List.mem_map.mp h
  split at hpc
  · exact absurd hpc.symm hne
  · exact hpc ▸ hmem

theorem notifyAll_ne_nil (h : s.recyclers ≠ []) : s.notifyAll.recyclers ≠ [] := fun hnil =>
  h (List.map_eq_nil_iff.mp hnil)

theorem Inv.notifyAll (h : Inv s) (hcalls : s'.calls = s.calls) (hrecyclers : s'.recyclers = s.recyclers)
    (hworker : s'.worker = s.worker) (halive : s'.terminated = s.terminated)
    (hrunning : s'.serviceRunning = s.serviceRunning)
    (hrequested : s'.recycling = true → s.recyclers ≠ []) (hstop : s.stop = true → s'.stop = true) :
    Inv s'.notifyAll where
  start := by
    show s'.calls.countP _ + (s'.recyclers.map _).length ≤ 1
    rw [List.length_map, hcalls, hrecyclers]
    exact h.start
  assign := by
    show s'.calls.countP _ + (if s'.worker.isSome then 1 else 0) ≤ (s'.recyclers.map _).length
    rw [List.length_map, hcalls, hrecyclers, hworker]
    exact h.assign
  alive := halive.trans h.alive
  running hr := notifyAll_ne_nil (hrecyclers ▸ h.running (hrunning ▸ hr))
  lock hmem := notifyAll_ne_nil (hrecyclers ▸ h.lock (hcalls ▸ hmem))
  requested hr := notifyAll_ne_nil (hrecyclers ▸ hrequested hr)
  blocked hmem := absurd hmem (blocked_notMem_notifyAll s')
  exited hmem := hstop (h.exited (hrecyclers ▸ mem_notifyAll (by decide) hmem))

/-- **A step of a call.** -/
theorem Inv.trigger {i : Nat} {pc : TriggerPc} (h : Inv s) (hi : s.calls[i]? = some pc)
    (hfirst : FirstStarts s (.trigger i)) (hstep : s.trigger i pc = some s') : Inv s' := by
  cases pc with
  | read =>
    obtain rfl := Option.some.inj hstep
    cases hrunning : s.serviceRunning with
    | true => exact h.setCall hi (fun hpc => nomatch hpc) rfl fun _ => h.running hrunning
    | false => exact h.setCall hi (fun _ => hfirst hi hrunning) rfl fun hpc => nomatch hpc
  | start =>
    obtain rfl := Option.some.inj hstep
    exact h.startThread hi
  | assign r =>
    unfold State.trigger at hstep
    rw [(h.worker_none hi).1] at hstep
    obtain rfl := Option.some.inj hstep
    exact h.assignThread hi
  | lock =>
    have hne := h.lock (List.mem_of_getElem? hi)
    obtain rfl := Option.some.inj hstep
    split
    · exact h.setCall hi (fun hpc => nomatch hpc) rfl fun hpc => nomatch hpc
    · have hnotified : Inv { s with recycling := true }.notifyAll :=
        h.notifyAll rfl rfl rfl rfl rfl (fun _ => hne) fun hstop => hstop
      exact hnotified.setCall hi (fun hpc => nomatch hpc) rfl fun hpc => nomatch hpc
  | returned => cases hstep

/-! ## Steps of the thread -/

theorem Inv.setRecycler {r : Nat} {pc pc' : RecyclerPc} (h : Inv s) (hr : s.recyclers[r]? = some pc)
    (hcalls : s'.calls = s.calls) (hrecyclers : s'.recyclers = s.recyclers.set r pc')
    (hworker : s'.worker = s.worker) (halive : s'.terminated = s.terminated) (hstop : s'.stop = s.stop)
    (hrecycling : s'.recycling = true → s.recycling = true)
    (hblocked : pc' = .blocked → s'.recycling = false ∧ s'.stop = false)
    (hexited : pc' = .exited → s'.stop = true) : Inv s' := by
  have hne : s'.recyclers ≠ [] := by
    rw [hrecyclers]
    intro hnil
    rw [List.set_eq_nil_iff] at hnil
    rw [hnil] at hr
    cases hr
  constructor
  · rw [hcalls, hrecyclers, List.length_set]
    exact h.start
  · rw [hcalls, hrecyclers, hworker, List.length_set]
    exact h.assign
  · exact halive.trans h.alive
  · exact fun _ => hne
  · exact fun _ => hne
  · exact fun _ => hne
  · intro hmem
    rw [hrecyclers] at hmem
    rcases List.mem_or_eq_of_mem_set hmem with hold | hnew
    · obtain ⟨hidle, hrun⟩ := h.blocked hold
      refine ⟨?_, hstop.trans hrun⟩
      rw [← Bool.not_eq_true, ← Bool.not_eq_true] at *
      exact fun hr => hidle (hrecycling hr)
    · exact hblocked hnew.symm
  · intro hmem
    rw [hrecyclers] at hmem
    rcases List.mem_or_eq_of_mem_set hmem with hold | hnew
    · exact hstop.trans (h.exited hold)
    · exact hexited hnew.symm

/-- **A step of the thread.** -/
theorem Inv.recycler {r : Nat} {pc : RecyclerPc} (h : Inv s) (hr : s.recyclers[r]? = some pc)
    (hstep : s.recycler r pc = some s') : Inv s' := by
  have hwait : Inv (s.setRecycler r
      (if s.stop then .exited else if s.recycling then .doRecycle else .blocked)) := by
    refine h.setRecycler hr rfl rfl rfl rfl rfl (fun hrecycling => hrecycling) ?_ ?_
    · intro hblocked
      split at hblocked
      · cases hblocked
      · rename_i hstop
        split at hblocked
        · cases hblocked
        · rename_i hrecycling
          exact ⟨eq_false_of_ne_true hrecycling, eq_false_of_ne_true hstop⟩
    · intro hexited
      split at hexited
      · assumption
      · split at hexited <;> cases hexited
  cases pc with
  | enter | woken =>
    obtain rfl := Option.some.inj hstep
    exact hwait
  | setRunning | blocked | doRecycle =>
    obtain rfl := Option.some.inj hstep
    exact h.setRecycler hr rfl rfl rfl rfl rfl (fun hrecycling => hrecycling) (fun hpc => nomatch hpc)
      fun hpc => nomatch hpc
  | reset =>
    obtain rfl := Option.some.inj hstep
    exact h.setRecycler hr rfl rfl rfl rfl rfl (fun hrecycling => nomatch hrecycling)
      (fun hpc => nomatch hpc) fun hpc => nomatch hpc
  | exited => cases hstep

/-! ## Runs -/

/-- **A step of the destructor.** -/
theorem Inv.destroy (h : Inv s) (hstep : s.destroy s.dtor = some s') : Inv s' := by
  unfold State.destroy at hstep
  split at hstep
  · split at hstep
    · obtain rfl := Option.some.inj hstep
      exact h.notifyAll rfl rfl rfl rfl rfl h.requested fun _ => rfl
    · cases hstep
  · split at hstep
    · obtain rfl := Option.some.inj hstep
      exact ⟨h.start, h.assign, h.alive, h.running, h.lock, h.requested, h.blocked, h.exited⟩
    · split at hstep
      · obtain rfl := Option.some.inj hstep
        have hassign := h.assign
        exact ⟨h.start, by simpa using by omega, h.alive, h.running, h.lock, h.requested, h.blocked,
          h.exited⟩
      · cases hstep
  · cases hstep

/-- **Step lemma.** -/
theorem Inv.step (h : Inv s) (hfirst : FirstStarts s e) (hstep : service.step s e = some s') :
    Inv s' := by
  have halive : ¬ s.terminated = true := by
    rw [h.alive]
    exact Bool.false_ne_true
  change (if s.terminated then none else _) = some s' at hstep
  rw [if_neg halive] at hstep
  cases e with
  | call =>
    change (if s.dtor = .notCalled then _ else none) = some s' at hstep
    split at hstep
    · obtain rfl := Option.some.inj hstep
      refine ⟨?_, ?_, h.alive, h.running, ?_, h.requested, h.blocked, h.exited⟩
      · simpa using h.start
      · simpa [TriggerPc.assigns] using h.assign
      · intro hmem
        apply h.lock
        simpa using hmem
    · cases hstep
  | trigger i =>
    obtain ⟨pc, hi, hpc⟩ := Option.bind_eq_some_iff.mp hstep
    exact h.trigger hi hfirst hpc
  | recycler r =>
    obtain ⟨pc, hr, hpc⟩ := Option.bind_eq_some_iff.mp hstep
    exact h.recycler hr hpc
  | destroy => exact h.destroy hstep

theorem inv_of_reach (h : service.Reach FirstStarts s) : Inv s := by
  refine h.inv ?_ ?_
  · rintro s rfl
    exact inv_new
  · intro s e s' hinv hfirst hstep
    exact hinv.step hfirst hstep

theorem stop_of_reset (h : service.Reach (fun s e => FirstStarts s e ∧ NoReturn s e) s) :
    .reset ∈ s.recyclers → s.stop = true := by
  refine h.inv (I := fun s => .reset ∈ s.recyclers → s.stop = true) ?_ ?_
  · rintro s rfl hmem
    cases hmem
  · rintro s e s' hreset ⟨-, hreturn⟩ hstep
    change (if s.terminated then none else _) = some s' at hstep
    split at hstep
    · cases hstep
    cases e with
    | call =>
      change (if s.dtor = .notCalled then _ else none) = some s' at hstep
      split at hstep
      · obtain rfl := Option.some.inj hstep
        exact hreset
      · cases hstep
    | trigger i =>
      obtain ⟨pc, -, hpc⟩ := Option.bind_eq_some_iff.mp hstep
      cases pc with
      | read =>
        obtain rfl := Option.some.inj hpc
        exact hreset
      | start =>
        obtain rfl := Option.some.inj hpc
        intro hmem
        rcases List.mem_append.mp hmem with hold | hnew
        · exact hreset hold
        · cases List.mem_singleton.mp hnew
      | assign r =>
        change (if s.worker.isSome then _ else _) = some s' at hpc
        split at hpc <;> obtain rfl := Option.some.inj hpc <;> exact hreset
      | lock =>
        obtain rfl := Option.some.inj hpc
        split
        · exact hreset
        · exact fun hmem => hreset (mem_notifyAll (by decide) hmem)
      | returned => cases hpc
    | recycler r =>
      obtain ⟨pc, hr, hpc⟩ := Option.bind_eq_some_iff.mp hstep
      have hset : ∀ pc' : RecyclerPc, pc' ≠ .reset → .reset ∈ s.recyclers.set r pc' → s.stop = true :=
        fun pc' hne hmem => (List.mem_or_eq_of_mem_set hmem).elim hreset fun heq => absurd heq.symm hne
      cases pc with
      | enter | woken =>
        obtain rfl := Option.some.inj hpc
        apply hset
        split
        · decide
        · split <;> decide
      | setRunning | blocked | reset =>
        obtain rfl := Option.some.inj hpc
        exact hset _ (by decide)
      | doRecycle =>
        obtain rfl := Option.some.inj hpc
        exact fun _ => hreturn hr
      | exited => cases hpc
    | destroy =>
      change s.destroy s.dtor = some s' at hstep
      unfold State.destroy at hstep
      split at hstep
      · split at hstep
        · obtain rfl := Option.some.inj hstep
          exact fun _ => rfl
        · cases hstep
      · split at hstep
        · obtain rfl := Option.some.inj hstep
          exact hreset
        · split at hstep
          · obtain rfl := Option.some.inj hstep
            exact hreset
          · cases hstep
      · cases hstep

/-! ## Two threads -/

theorem step_start {i : Nat} (halive : s.terminated = false) (hi : s.calls[i]? = some .start) :
    service.step s (.trigger i) =
      some ({ s with recyclers := s.recyclers ++ [RecyclerPc.setRunning] }.setCall i
        (.assign s.recyclers.length)) := by
  have hnot : ¬ s.terminated = true := by
    rw [halive]
    exact Bool.false_ne_true
  show (if s.terminated then none else (s.calls[i]?).bind (s.trigger i)) = _
  rw [if_neg hnot, hi]
  rfl

/-- **A call that is not the first one** to read that the service is not running may start a second
thread. -/
theorem exists_unsafe (halive : s.terminated = false) (hfirst : ¬ FirstStarts s e)
    (hstep : service.step s e = some s') :
    ∃ s'', (service.after s').Reachable s'' ∧ 2 ≤ s''.recyclers.length := by
  cases e with
  | call | recycler _ | destroy => exact absurd trivial hfirst
  | trigger i =>
    unfold FirstStarts at hfirst
    push Not at hfirst
    obtain ⟨hi, hrunning, hother⟩ := hfirst
    have hnot : ¬ s.terminated = true := by
      rw [halive]
      exact Bool.false_ne_true
    change (if s.terminated then none else (s.calls[i]?).bind (s.trigger i)) = some s' at hstep
    rw [if_neg hnot, hi] at hstep
    have hs' : s' = s.setCall i .start := by
      obtain rfl := Option.some.inj hstep
      rw [hrunning]
      rfl
    obtain ⟨hlt, -⟩ := List.getElem?_eq_some_iff.mp hi
    have hi' : s'.calls[i]? = some .start := by
      rw [hs']
      exact List.getElem?_set_self hlt
    have halive' : s'.terminated = false := by rw [hs']; exact halive
    have hinit : (service.after s').Reachable s' := .init rfl
    rcases Nat.eq_zero_or_pos s.recyclers.length with hzero | hpos
    · -- another call is about to start a thread: both do
      obtain ⟨j, hj⟩ := List.mem_iff_getElem?.mp (hother (List.length_eq_zero_iff.mp hzero))
      have hji : i ≠ j := by
        rintro rfl
        rw [hi] at hj
        cases hj
      have hj' : s'.calls[j]? = some .start := by
        rw [hs']
        exact (List.getElem?_set_ne hji).trans hj
      have hfirst : (service.after s').step s' (.trigger j) = some _ := step_start halive' hj'
      refine ⟨_, (hinit.step trivial hfirst).step (e := .trigger i) trivial (step_start halive' ?_), ?_⟩
      · exact (List.getElem?_set_ne hji.symm).trans hi'
      · show 2 ≤ ((s'.recyclers ++ [_]) ++ [_]).length
        rw [List.length_append, List.length_append, List.length_singleton]
        omega
    · refine ⟨_, hinit.step (e := .trigger i) trivial (step_start halive' hi'), ?_⟩
      have hlength : s'.recyclers.length = s.recyclers.length := by rw [hs']; rfl
      show 2 ≤ (s'.recyclers ++ [_]).length
      rw [List.length_append, List.length_singleton, hlength]
      omega

/-- **Triggering is safe** in every run in which a call reads that the service is not running only before
any other has done so; and after any other such read a second thread may be started. If no pass returns
before the stop, a request is pending only while a pass is running or about to be started. -/
theorem recycle_triggering_safe (s : State) :
    (service.Reach FirstStarts s → Safe s) ∧
      (service.Reach (fun s e => FirstStarts s e ∧ NoReturn s e) s →
        s.recycling = true → s.stop = false → ∃ pc ∈ s.recyclers, pc.Passes) ∧
      (service.Reach FirstStarts s → ∀ e s', ¬ FirstStarts s e → service.step s e = some s' →
        ∃ s'', (service.after s').Reachable s'' ∧ ¬ Safe s'') := by
  refine ⟨fun h => (inv_of_reach h).safe, ?_, ?_⟩
  · intro h hrecycling hstop
    have hsafe := (inv_of_reach (h.mono fun _ _ hC => hC.1)).safe
    obtain ⟨pc, hmem, hpasses | rfl⟩ := hsafe.pending hrecycling hstop
    · exact ⟨pc, hmem, hpasses⟩
    · rw [stop_of_reset h hmem] at hstop
      cases hstop
  · intro h e s' hfirst hstep
    obtain ⟨s'', hlater, htwo⟩ := exists_unsafe (inv_of_reach h).alive hfirst hstep
    refine ⟨s'', hlater, fun hsafe => ?_⟩
    have hone := hsafe.once
    omega

/-- One call gets ahead, and the thread is in a pass for it. -/
def oneTrigger : List Event :=
  [.call, .trigger 0, .trigger 0, .trigger 0, .recycler 0, .call, .trigger 1, .recycler 0, .trigger 0,
    .recycler 0, .trigger 1]

theorem recycle_triggering_safe_one : ∃ s, service.Reach FirstStarts s ∧
    s.recyclers = [.doRecycle] ∧ s.calls = [.returned, .returned] ∧ Safe s := by
  obtain ⟨s, hreach, hp⟩ := Machine.exists_reach_of_run (M := service) (C := FirstStarts) (s := new)
    (l := oneTrigger) (p := fun s => s.recyclers = [.doRecycle] ∧ s.calls = [.returned, .returned])
    rfl (by decide)
  obtain ⟨hrecyclers, hcalls⟩ := hp
  exact ⟨s, hreach, hrecyclers, hcalls, (recycle_triggering_safe s).1 hreach⟩

/-- Two calls read the flag before the first thread sets it. -/
def twoTriggers : List Event :=
  [.call, .call, .trigger 0, .trigger 1, .trigger 0, .trigger 0, .trigger 0, .trigger 1, .recycler 0,
    .recycler 0, .recycler 1, .recycler 1, .trigger 1]

/-- Two threads are in `DoRecycle` at a time, and the second assignment has ended the process. -/
theorem recycle_triggering_twice : ∃ s, service.Reachable s ∧
    s.recyclers = [.doRecycle, .doRecycle] ∧ s.terminated = true ∧ ¬ Safe s := by
  obtain ⟨s, hs, hp⟩ := Machine.exists_reachable_of_run (M := service) (s := new) (l := twoTriggers)
    (p := fun s => s.recyclers = [.doRecycle, .doRecycle] ∧ s.terminated = true) rfl (by decide)
  obtain ⟨hrecyclers, hterminated⟩ := hp
  refine ⟨s, hs, hrecyclers, hterminated, fun hsafe => ?_⟩
  rw [hsafe.alive] at hterminated
  cases hterminated

end UnifiedCache.NfsStore.RecycleService
