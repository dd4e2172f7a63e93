import UnifiedCache.Cache.Proofs.PinsProofs

/-!
# Owners and the nodes they fill

Three properties of the store rest on what an owner does with the node it was given: the node stays
pinned while the backend writes into it, a key that `Exist` reports is backed by data, and a load
that waits for `Ready` waits for somebody. An owner that fails breaks each of them; here are the
runs in which they hold, and for each a run in which it does not.
-/

open Lib

namespace UnifiedCache.Cache

variable {cfg : Config} {env : Env} {act : Action} {buf buf' : TransBuffer} {q q' : Proc}
variable {n : Nat} {s s' : State n} {e : Event n}

/-! ## Nodes the backend writes into -/

/-- Every backend load that nobody has waited for fills a node its process still pins. -/
def LoadsPinned (q : Proc) : Prop :=
  ∀ b ∈ q.backend, b.type = .load → b.waited = false →
    ∃ k i, b.shards = [(k, i)] ∧ (i, .loading k b.handle) ∈ q.pins

theorem mem_markWaited {handle : Nat} {backend : List BackendTask} {b : BackendTask}
    (hb : b ∈ markWaited handle backend) (hw : b.waited = false) :
    b ∈ backend ∧ b.handle ≠ handle := by
  obtain ⟨b0, hb0, rfl⟩ := List.mem_map.mp hb
  split_ifs at hw ⊢ with hh
  exact ⟨hb0, hh⟩

variable {i : Nat}

theorem Retagged.loading {ready : Nat → Bool} {givesUp : List Nat} {handle : Nat} {k : Key}
    {y : Pin} (h : Retagged ready givesUp (i, .loading k handle) y) :
    y = (i, .loading k handle) := by
  cases h
  rfl

theorem Effect.loadsPinned (he : Effect cfg env act buf q buf' q') (hno : q.abandons act = false)
    (h : LoadsPinned q) : LoadsPinned q' := by
  cases he with
  | retag hbuf hpins hbackend =>
    intro b hb htype hwaited
    obtain ⟨k, i, hsh, hpin⟩ := h b (hbackend ▸ hb) htype hwaited
    obtain ⟨y, hy, hxy⟩ := Multiset.exists_mem_of_rel_of_mem hpins hpin
    rw [hxy.loading] at hy
    exact ⟨k, i, hsh, hy⟩
  | search k allowReserved hget hpins hbackend =>
    intro b hb
    rw [hpins]
    exact h b (hbackend ▸ hb)
  | get k allowReserved hd r hget hrole hpins hbackend =>
    intro b hb htype hwaited
    obtain ⟨k', i, hsh, hpin⟩ := h b (hbackend ▸ hb) htype hwaited
    rw [hpins]
    exact ⟨k', i, hsh, Multiset.mem_add.mpr (.inr hpin)⟩
  | release i hpins hbackend =>
    intro b hb htype hwaited
    obtain ⟨k', i', hsh, hpin⟩ := h b (hbackend ▸ hb) htype hwaited
    rw [hpins] at hpin
    exact ⟨k', i', hsh, by simpa using hpin⟩
  | submitLoad k i handle rest hpins hpins' hfresh hbackend =>
    intro b hb htype hwaited
    rw [hbackend, List.mem_append, List.mem_singleton] at hb
    rw [hpins']
    rcases hb with hb | rfl
    · obtain ⟨k', i', hsh, hpin⟩ := h b hb htype hwaited
      rw [hpins] at hpin
      exact ⟨k', i', hsh, Multiset.mem_add.mpr (.inr (by simpa using hpin))⟩
    · exact ⟨k, i, rfl, by simp⟩
  | submitDump handle shards hpins hfresh hbackend =>
    intro b hb htype hwaited
    rw [hbackend, List.mem_append, List.mem_singleton] at hb
    rcases hb with hb | rfl
    · rw [hpins]
      exact h b hb htype hwaited
    · cases htype
  | waitLoad k i handle r rest hrole hpins hpins' hbackend =>
    intro b hb' htype hwaited
    obtain ⟨hb, hne⟩ := mem_markWaited (hbackend ▸ hb') hwaited
    obtain ⟨k', i', hsh, hpin⟩ := h b hb htype hwaited
    rw [hpins, Multiset.mem_add, Multiset.mem_singleton] at hpin
    rw [hpins']
    rcases hpin with hpin | hpin
    · cases hpin
      exact absurd rfl hne
    · exact ⟨k', i', hsh, Multiset.mem_add.mpr (.inr hpin)⟩
  | waitDump handle hpins hbackend =>
    intro b hb' htype hwaited
    obtain ⟨hb, hne⟩ := mem_markWaited (hbackend ▸ hb') hwaited
    rw [hpins]
    exact h b hb htype hwaited
  | finish handle ok hact hpins hbackend =>
    intro b hb htype hwaited
    rw [hbackend] at hb
    obtain ⟨b0, hb0, rfl⟩ := List.mem_map.mp hb
    rw [hpins]
    split_ifs at htype hwaited ⊢
    · exact h b0 hb0 htype hwaited
    · exact h b0 hb0 htype hwaited
  | abandon k i handle rest habandon => exact absurd habandon (by rw [hno]; simp)

theorem loadsPinned_reach (h : (storeMachine cfg n).Reach NoAbandon s) :
    ∀ p, LoadsPinned (s.procs p) := by
  refine h.inv (I := fun s => ∀ p, LoadsPinned (s.procs p)) (fun s hs p => ?_)
    fun s e s' hs hno hstep p => ?_
  · rw [hs.2 p]
    exact fun b hb => absurd hb List.not_mem_nil
  · obtain ⟨q', hprocs, he, -⟩ := step_effect hstep
    revert p
    rw [hprocs, Function.forall_update_iff s.procs fun _ q => LoadsPinned q]
    exact ⟨he.loadsPinned hno (hs e.p), fun p _ => hs p⟩

/-- **Nodes stay pinned while the backend fills them**, in every run in which the transfer thread
drops no shard of a failed task before its backend load is waited for: the node of a submitted
backend load that has not been waited for is referenced and holds the shard's key, and no step of
any process changes the key. -/
theorem backendLoad_pinned (cfg : Config) (n : Nat) (s : State n)
    (h : (storeMachine cfg n).Reach NoAbandon s) (p : Fin n) (b : BackendTask)
    (hb : b ∈ (s.procs p).backend) (htype : b.type = .load) (hwaited : b.waited = false) :
    ∀ x ∈ b.shards, 0 < (s.buf.metaAt x.2).reference ∧ s.buf.Keyed x.2 x.1.1 x.1.2 ∧
      ∀ e s', s.step cfg e = some s' → s'.buf.Keyed x.2 x.1.1 x.1.2 := by
  obtain ⟨k, i, hsh, hpin⟩ := loadsPinned_reach h p b hb htype hwaited
  have hinv := storeInv_reach h
  have href := hinv.pinned.reference_pos (mem_pins hpin)
  have hkey := hinv.pinned.key_eq _ (mem_pins hpin) k rfl
  intro x hx
  rw [hsh, List.mem_singleton] at hx
  subst hx
  refine ⟨href, (TransBuffer.pool_key_iff _ _ _ _).mp hkey, fun e s' hstep => ?_⟩
  rw [← TransBuffer.pool_key_iff, (keeps_step hinv hstep _ href).1]
  exact hkey

/-- The dispatcher loads one shard: the backend accepts it under the handle. -/
def dispatchOne (p : Fin n) (handle : Nat) : List (Event n) :=
  [⟨p, .loadDispatcher, {}⟩, ⟨p, .loadDispatcher, {}⟩, ⟨p, .loadDispatcher, { tryLocks := [true] }⟩,
    ⟨p, .loadDispatcher, {}⟩, ⟨p, .loadDispatcher, { handle := some handle }⟩,
    ⟨p, .loadDispatcher, {}⟩, ⟨p, .loadDispatcher, {}⟩]

/-- A load of one shard; its `Wait` times out before the transfer thread has taken the shard. -/
def timeoutTrace : List (Event 1) :=
  ⟨0, .submit .load [⟨7, 0, [100]⟩] 0, {}⟩ :: dispatchOne 0 1 ++
    [⟨0, .waitBegin 1, {}⟩, ⟨0, .waitTimeout 1, {}⟩] ++
    List.replicate 4 ⟨0, .loadTransfer, {}⟩

/-- The transfer thread drops a shard of a task that has timed out, and with it the only reference on
the node the backend is still writing into. -/
theorem backendLoad_unpinned :
    ∃ s, (storeMachine .small 1).Reachable s ∧ ∃ b ∈ (s.procs 0).backend, b.type = .load ∧
      b.result = none ∧ b.waited = false ∧ b.shards = [((7, 0), 0)] ∧
      (s.buf.metaAt 0).reference = 0 := by
  obtain ⟨s, hs, hp⟩ := Machine.exists_reachable_of_run (M := storeMachine .small 1)
    (s := .start 1 ∅) (l := timeoutTrace) (p := fun s => (s.procs 0).backend = [⟨1, .load,
      [((7, 0), 0)], none, false⟩] ∧ (s.buf.metaAt 0).reference = 0) ⟨rfl, fun _ => rfl⟩
    (by decide +kernel)
  refine ⟨s, hs, ⟨1, .load, [((7, 0), 0)], none, false⟩, ?_, rfl, rfl, rfl, rfl, hp.2⟩
  rw [hp.1]
  exact List.mem_singleton_self _

/-- A load of one shard that the backend accepts and has not finished. -/
theorem backendLoad_pinned_one_shard :
    ∃ s, (storeMachine .small 1).Reach NoAbandon s ∧ 0 < (s.buf.metaAt 0).reference ∧
      s.buf.Keyed 0 7 0 := by
  obtain ⟨s, hs, hp⟩ := Machine.exists_reachable_of_run
    (M := (storeMachine .small 1).guard fun s e => !(s.procs e.p).abandons e.act) (s := .start 1 ∅)
    (l := ⟨0, .submit .load [⟨7, 0, [100]⟩] 0, {}⟩ :: dispatchOne 0 1)
    (p := fun s => (s.procs 0).backend = [⟨1, .load, [((7, 0), 0)], none, false⟩])
    ⟨rfl, fun _ => rfl⟩ (by decide +kernel)
  have hreach := Machine.Reach.of_guard (C := NoAbandon)
    (fun s e _ hc => by simpa [NoAbandon] using hc) hs
  have h := backendLoad_pinned .small 1 s hreach 0 ⟨1, .load, [((7, 0), 0)], none, false⟩
    (by rw [hp]; exact List.mem_singleton_self _) rfl rfl _
    (List.mem_singleton_self _)
  exact ⟨s, hreach, h.1, h.2.1⟩

/-! ## Hits -/

theorem Effect.filler (he : Effect cfg env act buf q buf' q') {x : Pin} (hx : x ∈ q.pins)
    (hfill : x.2.fills = true) :
    (∃ y ∈ q'.pins, y.1 = x.1 ∧ y.2.fills = true) ∨ buf'.ready x.1 = true ∨
      x.1 ∈ q.givesUp cfg env act := by
  obtain ⟨j, r⟩ := x
  cases he with
  | retag hbuf hpins hbackend =>
    obtain ⟨y, hy, hxy⟩ := Multiset.exists_mem_of_rel_of_mem hpins hx
    cases hxy with
    | same => exact .inl ⟨_, hy, rfl, hfill⟩
    | settled i k r' hready => exact .inr (.inl hready)
    | waited => cases hfill
    | gaveUp i k hi => exact .inr (.inr hi)
  | search k allowReserved hget hpins hbackend | submitDump handle shards hpins hfresh hbackend
  | waitDump handle hpins hbackend | finish handle ok hact hpins hbackend =>
    rw [← hpins] at hx
    exact .inl ⟨_, hx, rfl, hfill⟩
  | get k allowReserved hd r' hget hrole hpins hbackend =>
    refine .inl ⟨_, ?_, rfl, hfill⟩
    rw [hpins]
    exact Multiset.mem_add.mpr (.inr hx)
  | release i hpins hbackend =>
    rw [hpins, Multiset.mem_add, Multiset.mem_singleton] at hx
    rcases hx with hx | hx
    · cases hx
      cases hfill
    · exact .inl ⟨_, hx, rfl, hfill⟩
  | submitLoad k i handle rest hpins hpins' hfresh hbackend =>
    rw [hpins, Multiset.mem_add, Multiset.mem_singleton] at hx
    rw [hpins']
    rcases hx with hx | hx
    · cases hx
      exact .inl ⟨_, Multiset.mem_add.mpr (.inl (Multiset.mem_singleton_self _)), rfl, rfl⟩
    · exact .inl ⟨_, Multiset.mem_add.mpr (.inr hx), rfl, hfill⟩
  | waitLoad k i handle r' rest hrole hpins hpins' hbackend =>
    rw [hpins, Multiset.mem_add, Multiset.mem_singleton] at hx
    rw [hpins']
    rcases hx with hx | hx
    · cases hx
      rcases hrole with rfl | ⟨rfl, hi⟩
      · exact .inl ⟨_, Multiset.mem_add.mpr (.inl (Multiset.mem_singleton_self _)), rfl, rfl⟩
      · exact .inr (.inr hi)
    · exact .inl ⟨_, Multiset.mem_add.mpr (.inr hx), rfl, hfill⟩
  | abandon k i handle rest habandon hi hpins hpins' hbackend =>
    rw [hpins, Multiset.mem_add, Multiset.mem_singleton] at hx
    rcases hx with hx | hx
    · cases hx
      exact .inr (.inr hi)
    · refine .inl ⟨_, ?_, rfl, hfill⟩
      rw [hpins']
      exact Multiset.mem_add.mpr (.inr hx)

theorem ShardTask.unchecked_pin {st : ShardTask} {x : Nat × Nat} (hx : x ∈ st.unchecked) :
    x.2 = st.pin.1 := by
  unfold ShardTask.unchecked at hx
  split_ifs at hx
  · cases hx
  · rw [List.mem_singleton.mp hx]
    rfl

theorem unchecked_pinned {x : Nat × Nat} (hx : x ∈ q.unchecked) : ∃ r, (x.2, r) ∈ q.pins := by
  unfold Proc.unchecked at hx
  rw [List.mem_append, List.mem_append] at hx
  rcases hx with (hx | hx) | hx
  · rw [pins_loadDispatch]
    refine (?_ : ∃ r, (x.2, r) ∈ q.load.dispatch.pins).imp fun r hr => Multiset.mem_add.mpr (.inl hr)
    cases hpc : q.load.dispatch with
    | ready task shard rest h | submit task shard rest h =>
      rw [hpc] at hx
      rw [List.mem_singleton.mp hx]
      exact ⟨_, List.mem_singleton_self _⟩
    | push task st rest =>
      rw [hpc] at hx
      rw [ShardTask.unchecked_pin hx]
      exact ⟨_, List.mem_singleton_self _⟩
    | _ => rw [hpc] at hx; cases hx
  · obtain ⟨st, hmem, hx⟩ := List.mem_flatMap.mp hx
    rw [ShardTask.unchecked_pin hx]
    refine ⟨st.pin.2, ?_⟩
    have hpin : st.pin ∈ q.load.running.map ShardTask.pin := List.mem_map_of_mem hmem
    simp only [Proc.pins, Multiset.mem_add, Multiset.mem_coe]
    tauto
  · rw [pins_loadTransfer]
    refine (?_ : ∃ r, (x.2, r) ∈ q.load.transfer.pins).imp fun r hr => Multiset.mem_add.mpr (.inl hr)
    cases hpc : q.load.transfer with
    | check st =>
      rw [hpc] at hx
      rw [ShardTask.unchecked_pin hx]
      exact ⟨_, List.mem_singleton_self _⟩
    | _ => rw [hpc] at hx; cases hx

theorem unchecked_mono (hd : q'.load.dispatch.unchecked ⊆ q.load.dispatch.unchecked)
    (hr : q'.load.running = q.load.running)
    (ht : q'.load.transfer.unchecked ⊆ q.load.transfer.unchecked) : q'.unchecked ⊆ q.unchecked := by
  intro x hx
  simp only [Proc.unchecked, hr, List.mem_append] at hx ⊢
  exact hx.imp (Or.imp_left (hd ·)) (ht ·)

theorem unchecked_load (h : q'.load = q.load) : q'.unchecked = q.unchecked := by
  unfold Proc.unchecked
  rw [h]

theorem fail_subset {t : Tasks} {id : Nat} : (t.fail id).failureSet ⊆ t.failureSet ∪ {id} := by
  unfold Tasks.fail
  rw [Finset.union_comm]
  exact Finset.Subset.refl _

/-- The load dispatcher only adds the shard whose node it gets as the owner. -/
theorem loadDispatcher_unchecked (hrep : ∃ chain, TransBuffer.RepInv cfg.buffer buf chain)
    (h : q.loadDispatcher cfg env buf = some (buf', q')) :
    q'.tasks.failureSet ⊆ q.tasks.failureSet ∪ q.failing .loadDispatcher ∧ ∀ x ∈ q'.unchecked,
      x ∈ q.unchecked ∨ ∃ task shard rest, q.load.dispatch = .get task (shard :: rest) ∧
        x.1 = task.id ∧ buf.pool.Get shard.key (some (x.2, true)) buf'.pool := by
  have hsame : q'.load.dispatch.unchecked ⊆ q.load.dispatch.unchecked →
      q'.load.running = q.load.running → q'.load.transfer = q.load.transfer → ∀ x ∈ q'.unchecked,
      x ∈ q.unchecked ∨ ∃ task shard rest, q.load.dispatch = .get task (shard :: rest) ∧
        x.1 = task.id ∧ buf.pool.Get shard.key (some (x.2, true)) buf'.pool :=
    fun hd hr ht x hx => .inl (unchecked_mono hd hr (by rw [ht]; exact List.Subset.refl _) hx)
  cases hpc : q.load.dispatch with
  | get task rest =>
    rw [hpc] at hsame
    cases rest with
    | nil =>
      simp only [Proc.loadDispatcher, hpc] at h
      cases h
      exact ⟨Finset.subset_union_left, hsame (List.nil_subset _) rfl rfl⟩
    | cons shard rest =>
      obtain ⟨chain, hrep⟩ := hrep
      have hg := (hrep.get shard.owner shard.index true env.tryLocks).2
      rcases loadDispatcher_get hpc h with ⟨-, rfl⟩ | ⟨hd, hget, ⟨ho, rfl⟩ | ⟨ho, rfl⟩⟩
      · exact ⟨Finset.subset_union_left, fun x hx => .inl hx⟩
      · refine ⟨Finset.subset_union_left, fun x hx => ?_⟩
        simp only [Proc.unchecked, DispatchPc.unchecked, List.mem_append, List.mem_singleton] at hx
        rcases hx with (rfl | hx) | hx
        · refine .inr ⟨task, shard, rest, rfl, rfl, ?_⟩
          rw [hget, Option.map_some, ho] at hg
          exact hg
        · exact .inl (List.mem_append_left _ (List.mem_append_right _ hx))
        · exact .inl (List.mem_append_right _ hx)
      · exact ⟨Finset.subset_union_left, hsame (List.nil_subset _) rfl rfl⟩
  | ready task shard rest hd =>
    rw [hpc] at hsame
    simp only [Proc.loadDispatcher, hpc] at h
    split at h <;> cases h
    · exact ⟨Finset.subset_union_left, hsame (List.nil_subset _) rfl rfl⟩
    · exact ⟨Finset.subset_union_left, hsame (List.Subset.refl _) rfl rfl⟩
  | submit task shard rest hd =>
    rw [hpc] at hsame
    obtain ⟨-, ⟨-, rfl⟩ | ⟨handle, h0, -, rfl⟩⟩ := loadDispatcher_submit hpc h
    · exact ⟨Finset.subset_union_left, hsame (List.nil_subset _) rfl rfl⟩
    · refine ⟨Finset.subset_union_left, hsame ?_ rfl rfl⟩
      simp only [DispatchPc.unchecked, ShardTask.unchecked, if_neg h0]
      exact List.Subset.refl _
  | push task st rest =>
    simp only [Proc.loadDispatcher, hpc] at h
    split at h <;> cases h
    refine ⟨Finset.subset_union_left, fun x hx => .inl ?_⟩
    simp only [Proc.unchecked, hpc, DispatchPc.unchecked, List.flatMap_append, List.flatMap_cons,
      List.flatMap_nil, List.mem_append] at hx ⊢
    tauto
  | idle | check task =>
    rw [hpc] at hsame
    simp only [Proc.loadDispatcher, hpc] at h
    split at h <;> cases h <;>
      exact ⟨Finset.subset_union_left, hsame (List.nil_subset _) rfl rfl⟩
  | failInsert task hd =>
    rw [hpc] at hsame
    simp only [Proc.loadDispatcher, hpc] at h
    cases h
    refine ⟨?_, hsame (List.nil_subset _) rfl rfl⟩
    simp only [Proc.failing, hpc]
    exact fail_subset
  | skip task | failDone task hd | failDrop hd =>
    rw [hpc] at hsame
    simp only [Proc.loadDispatcher, hpc] at h
    cases h
    exact ⟨Finset.subset_union_left, hsame (List.nil_subset _) rfl rfl⟩

theorem loadTransfer_unchecked (h : q.loadTransfer cfg env buf = some (buf', q')) :
    q'.tasks.failureSet ⊆ q.tasks.failureSet ∪ q.failing .loadTransfer ∧
      q'.unchecked ⊆ q.unchecked := by
  have hpc' : ∀ q1 : Proc, q1.load.dispatch = q.load.dispatch → q1.load.running = q.load.running →
      q1.load.transfer.unchecked = [] → q1.unchecked ⊆ q.unchecked := fun q1 hd hr ht =>
    unchecked_mono (by rw [hd]; exact List.Subset.refl _) hr (by rw [ht]; exact List.nil_subset _)
  cases hpc : q.load.transfer with
  | idle =>
    simp only [Proc.loadTransfer, hpc] at h
    split at h
    · cases h
    · rename_i st running hrun
      cases h
      refine ⟨Finset.subset_union_left, fun x hx => ?_⟩
      simp only [Proc.unchecked, hpc, hrun, TransferPc.unchecked, List.flatMap_cons, List.mem_append]
        at hx ⊢
      tauto
  | waitBackend st =>
    obtain ⟨-, _ | _, q1, -, rfl⟩ := loadTransfer_waitBackend hpc h <;>
      exact ⟨Finset.subset_union_left, hpc' _ rfl rfl rfl⟩
  | clear st ok =>
    simp only [Proc.loadTransfer, hpc] at h
    split at h <;> cases h
    · cases ok <;> exact ⟨Finset.subset_union_left, hpc' _ rfl rfl rfl⟩
    · exact ⟨Finset.subset_union_left, hpc' _ rfl rfl rfl⟩
  | fail st =>
    simp only [Proc.loadTransfer, hpc] at h
    cases h
    refine ⟨?_, hpc' _ rfl rfl rfl⟩
    simp only [Proc.failing, hpc]
    exact fail_subset
  | done st =>
    simp only [Proc.loadTransfer, hpc] at h
    cases h
    cases st.waiter <;> exact ⟨Finset.subset_union_left, hpc' _ rfl rfl rfl⟩
  | check st | poll st | pollFailed st | h2d st =>
    simp only [Proc.loadTransfer, hpc] at h
    split_ifs at h <;> cases h <;> exact ⟨Finset.subset_union_left, hpc' _ rfl rfl rfl⟩
  | markReady st | sync st | drop st =>
    simp only [Proc.loadTransfer, hpc] at h
    cases h
    exact ⟨Finset.subset_union_left, hpc' _ rfl rfl rfl⟩

theorem dumpDispatcher_failing (h : q.dumpDispatcher cfg env buf = some (buf', q')) :
    q'.tasks.failureSet ⊆ q.tasks.failureSet ∪ q.failing .dumpDispatcher ∧ q'.load = q.load := by
  cases hpc : q.dump.dispatch with
  | get task rest acc =>
    cases rest with
    | nil =>
      simp only [Proc.dumpDispatcher, hpc] at h
      cases h
      exact ⟨Finset.subset_union_left, rfl⟩
    | cons shard rest =>
      rcases dumpDispatcher_get hpc h with ⟨-, rfl⟩ | ⟨hd, -, ⟨-, rfl⟩ | ⟨-, rfl⟩⟩ <;>
        exact ⟨Finset.subset_union_left, rfl⟩
  | submit task acc =>
    obtain ⟨-, ⟨-, rfl⟩ | ⟨handle, -, -, -, rfl⟩⟩ := dumpDispatcher_submit hpc h <;>
      exact ⟨Finset.subset_union_left, rfl⟩
  | insert task =>
    simp only [Proc.dumpDispatcher, hpc] at h
    cases h
    refine ⟨?_, rfl⟩
    simp only [Proc.failing, hpc]
    exact fail_subset
  | markReady task acc todo | unwind task todo =>
    simp only [Proc.dumpDispatcher, hpc] at h
    cases todo <;> cases h <;> exact ⟨Finset.subset_union_left, rfl⟩
  | sync task acc | skip task rest acc hd | done task =>
    simp only [Proc.dumpDispatcher, hpc] at h
    cases h
    exact ⟨Finset.subset_union_left, rfl⟩
  | check task =>
    simp only [Proc.dumpDispatcher, hpc] at h
    split_ifs at h <;> cases h <;> exact ⟨Finset.subset_union_left, rfl⟩
  | _ =>
    simp only [Proc.dumpDispatcher, hpc] at h
    split at h <;> cases h <;> exact ⟨Finset.subset_union_left, rfl⟩

theorem submit_failing (type : TaskType) (desc : List Shard) (prerequisiteHandle : Nat) :
    (q.submit cfg type desc prerequisiteHandle).tasks.failureSet ⊆
        q.tasks.failureSet ∪ {q.tasks.nextId} ∧
      (q.submit cfg type desc prerequisiteHandle).unchecked = q.unchecked := by
  unfold Proc.submit
  cases type <;> dsimp only <;> split_ifs
  · exact ⟨Finset.subset_union_left, rfl⟩
  · exact ⟨fail_subset, rfl⟩
  · exact ⟨Finset.subset_union_left, rfl⟩
  · exact ⟨fail_subset, rfl⟩

/-- **A shard to drop** was one before the step, or the step fails its task, or gets its node for a
task that has failed. -/
theorem ProcStep.doomed {stored stored' : Finset Key}
    (hrep : ∃ chain, TransBuffer.RepInv cfg.buffer buf chain)
    (h : ProcStep cfg env buf stored q act buf' stored' q') (hi : q'.Doomed i) :
    q.Doomed i ∨ i ∈ q.dooms act ∨
      ∃ k, q.lateGet act = some k ∧ buf.pool.Get k (some (i, true)) buf'.pool := by
  have hold : q'.tasks.failureSet ⊆ q.tasks.failureSet ∪ q.failing act → ∀ x ∈ q.unchecked,
      x.1 ∈ q'.tasks.failureSet → x.2 = i → q.Doomed i ∨ i ∈ q.dooms act := fun hf x hx hx1 hx2 => by
    rcases Finset.mem_union.mp (hf hx1) with hx1 | hx1
    · exact .inl ⟨x, hx, hx1, hx2⟩
    · exact .inr (List.mem_map.mpr ⟨x, List.mem_filter.mpr ⟨hx, decide_eq_true hx1⟩, hx2⟩)
  have hload : q'.tasks.failureSet ⊆ q.tasks.failureSet ∪ q.failing act → q'.load = q.load →
      q.Doomed i ∨ i ∈ q.dooms act ∨
        ∃ k, q.lateGet act = some k ∧ buf.pool.Get k (some (i, true)) buf'.pool := fun hf hl => by
    obtain ⟨x, hx, hx1, hx2⟩ := hi
    rw [unchecked_load hl] at hx
    exact (hold hf x hx hx1 hx2).imp_right .inl
  cases h with
  | loadDispatcher h =>
    obtain ⟨hf, hun⟩ := loadDispatcher_unchecked hrep h
    obtain ⟨x, hx, hx1, hx2⟩ := hi
    rcases hun x hx with hx | ⟨task, shard, rest, hpc, hid, hget⟩
    · exact (hold hf x hx hx1 hx2).imp_right .inl
    · refine .inr (.inr ⟨shard.key, ?_, hx2 ▸ hget⟩)
      have hmem := hf hx1
      simp only [Proc.failing, hpc, Finset.union_empty, hid] at hmem
      simp only [Proc.lateGet, hpc, if_pos hmem]
  | loadTransfer h =>
    obtain ⟨hf, hun⟩ := loadTransfer_unchecked h
    obtain ⟨x, hx, hx1, hx2⟩ := hi
    exact (hold hf x (hun hx) hx1 hx2).imp_right .inl
  | dumpDispatcher h => exact hload (dumpDispatcher_failing h).1 (dumpDispatcher_failing h).2
  | dumper h =>
    obtain ⟨ht, hl, -⟩ := dumper_frame h
    exact hload (by rw [ht]; exact Finset.subset_union_left) hl
  | submit type desc prerequisiteHandle =>
    obtain ⟨x, hx, hx1, hx2⟩ := hi
    obtain ⟨hf, hun⟩ := submit_failing type desc prerequisiteHandle
    exact (hold hf x (hun ▸ hx) hx1 hx2).imp_right .inl
  | waitBegin h =>
    unfold Tasks.waitBegin at h
    split_ifs at h
    cases h
    exact hload Finset.subset_union_left rfl
  | waitTimeout h =>
    unfold Tasks.waitTimeout at h
    split_ifs at h
    cases h
    exact hload fail_subset rfl
  | waitReturn h =>
    unfold Tasks.waitReturn at h
    split_ifs at h
    split at h <;> cases h <;>
      exact hload ((Finset.erase_subset _ _).trans Finset.subset_union_left) rfl
  | backendFinish h =>
    obtain rfl := (backendFinish_eq_some h).1
    exact hload Finset.subset_union_left rfl

theorem Proc.Doomed.pinned (h : q.Doomed i) : ∃ r, (i, r) ∈ q.pins := by
  obtain ⟨x, hx, -, rfl⟩ := h
  exact unchecked_pinned hx

theorem dooms_pinned (h : i ∈ q.dooms act) : ∃ r, (i, r) ∈ q.pins := by
  obtain ⟨x, hx, rfl⟩ := List.mem_map.mp h
  exact unchecked_pinned (List.mem_filter.mp hx).1

/-- No shard at an unpinned node is going to be dropped, unless a failed task gets the node. -/
theorem doomed_step (hinv : StoreInv cfg s) (hstep : s.step cfg e = some s') {p : Fin n}
    (h : (s'.procs p).Doomed i) :
    (s.procs p).Doomed i ∨ i ∈ (s.procs e.p).dooms e.act ∨
      ∃ k, (s.procs e.p).lateGet e.act = some k ∧ s.buf.pool.Get k (some (i, true)) s'.buf.pool := by
  obtain ⟨q', hprocs, hproc⟩ := step_proc hstep
  rw [hprocs] at h
  by_cases hp : p = e.p
  · subst hp
    rw [Function.update_self] at h
    exact hproc.doomed hinv.rep h
  · rw [Function.update_of_ne hp] at h
    exact .inl h

theorem filled_step (hinv : StoreInv cfg s) (hstep : s.step cfg e = some s') (h : s.Filled i) :
    s'.Filled i ∨ s'.buf.ready i = true ∨
      i ∈ (s.procs e.p).givesUp cfg e.env e.act ++ (s.procs e.p).dooms e.act := by
  obtain ⟨q', hprocs, he, -⟩ := step_effect hstep
  obtain ⟨rest, hrest, hrest'⟩ := pins_update s e.p
  obtain ⟨⟨x, hx, rfl, hfill⟩, hlive⟩ := h
  have href := hinv.pinned.reference_pos hx
  have hpin : (∃ y ∈ s'.pins, y.1 = x.1 ∧ y.2.fills = true) ∨ s'.buf.ready x.1 = true ∨
      x.1 ∈ (s.procs e.p).givesUp cfg e.env e.act := by
    rw [hrest' s' q' hprocs]
    rw [hrest, Multiset.mem_add] at hx
    rcases hx with hx | hx
    · rcases he.filler hx hfill with ⟨y, hy, hyx⟩ | h
      · exact .inl ⟨y, Multiset.mem_add.mpr (.inl hy), hyx⟩
      · exact .inr h
    · exact .inl ⟨x, Multiset.mem_add.mpr (.inr hx), rfl, hfill⟩
  rw [List.mem_append]
  rcases hpin with hpin | hr | hg
  · by_cases hd : x.1 ∈ (s.procs e.p).dooms e.act
    · exact .inr (.inr (.inr hd))
    · refine .inl ⟨hpin, fun p hp => ?_⟩
      rcases doomed_step hinv hstep hp with hp | hp | ⟨k, -, hget⟩
      · exact hlive p hp
      · exact hd hp
      -- the node is pinned, so nobody else becomes its owner
      · have h0 := hget.owner_iff.mp rfl
        omega
  · exact .inr (.inl hr)
  · exact .inr (.inr (.inl hg))

/-- Every key in the buffer is backed: by the node's data, by the backend, or by an owner that is
going to fill the node. -/
def Backed (s : State n) : Prop :=
  ∀ i k, (s.buf.pool i).key = some k → s.buf.ready i = true ∨ k ∈ s.stored ∨ s.Filled i

/-- A key in the table was there before the step, or its new owner has just got an unpinned node. -/
theorem storeKey_step (hinv : StoreInv cfg s) (hstep : s.step cfg e = some s') {k : Key}
    (hk : (s'.buf.pool i).key = some k) :
    (s.buf.pool i).key = some k ∧ (s.buf.ready i = true → s'.buf.ready i = true) ∨
      (i, .fill k) ∈ s'.pins ∧ (s.buf.pool i).reference = 0 := by
  obtain ⟨q', hprocs, he, -⟩ := step_effect hstep
  obtain ⟨rest, -, hrest'⟩ := pins_update s e.p
  rcases Nat.eq_zero_or_pos (s.buf.pool i).reference with h0 | hpos
  · refine (he.key_cases hinv.rep hk).imp_right fun hnew => ⟨?_, h0⟩
    rw [hrest' s' q' hprocs]
    exact Multiset.mem_add.mpr (.inl hnew.1)
  · obtain ⟨hkey, hready⟩ := keeps_step hinv hstep i hpos
    exact .inl ⟨hkey ▸ hk, hready⟩

/-- A failed task only gets a node that is backed already. -/
theorem backed_lateGet (hinv : StoreInv cfg s) (hC : GivesUpStored cfg s e) (h : Backed s) {k : Key}
    (hlate : (s.procs e.p).lateGet e.act = some k)
    (hget : s.buf.pool.Get k (some (i, true)) s'.buf.pool) (hfree : (s.buf.pool i).reference = 0) :
    s'.buf.ready i = true ∨ k ∈ s.stored := by
  rcases hC.2 k hlate with hs | hex
  · exact .inr hs
  · obtain ⟨chain, hrep⟩ := hinv.rep
    obtain ⟨j, hj⟩ := hrep.exist_iff.mp hex
    have hhit : (s.buf.pool i).key = some k ∧ (s.buf.ready i = true → s'.buf.ready i = true) := by
      generalize hpool : s'.buf.pool = P at hget
      generalize ho : true = owner at hget
      cases hget with
      | hit i hk =>
        refine ⟨hk, fun hr => ?_⟩
        have hready : (s'.buf.pool i).ready = (s.buf.pool i).ready := by rw [hpool, Pool.pin_ready]
        exact hready.trans hr
      | steal i hmiss => exact absurd ((TransBuffer.pool_key_iff _ _ _ _).mpr hj) (hmiss j)
    rcases h i k hhit.1 with hr | hs | ⟨⟨x, hx, rfl, -⟩, -⟩
    · exact .inl (hhit.2 hr)
    · exact .inr hs
    · have hpos := hinv.pinned.reference_pos hx
      omega

theorem backed_step (hinv : StoreInv cfg s) (hC : GivesUpStored cfg s e)
    (hstep : s.step cfg e = some s') (h : Backed s) : Backed s' := by
  intro i k hk
  obtain ⟨-, -, -, hstored⟩ := step_effect hstep
  rcases storeKey_step hinv hstep hk with ⟨hk0, hready⟩ | ⟨hpin, hfree⟩
  · rcases h i k hk0 with hr | hs | hf
    · exact .inl (hready hr)
    · exact .inr (.inl (hstored hs))
    · rcases filled_step hinv hstep hf with hf | hr | hg
      · exact .inr (.inr hf)
      · exact .inl hr
      · rcases hC.1 i hg with hr | ⟨k', hk', hkeyed⟩
        · exact .inl (hready hr)
        · rw [← TransBuffer.pool_key_iff, hk0] at hkeyed
          cases hkeyed
          exact .inr (.inl (hstored hk'))
  · by_cases hlive : ∀ p, ¬ (s'.procs p).Doomed i
    · exact .inr (.inr ⟨⟨(i, .fill k), hpin, rfl, rfl⟩, hlive⟩)
    -- the new owner's task has failed before
    · obtain ⟨p, hp⟩ := not_forall_not.mp hlive
      have hunpinned : ∀ (p : Fin n) r, (i, r) ∉ (s.procs p).pins := fun p r hr => by
        exact absurd (hinv.pinned.reference_pos (mem_pins hr)) (Nat.not_lt.mpr hfree.le)
      rcases doomed_step hinv hstep hp with hp | hp | ⟨k', hlate, hget⟩
      · obtain ⟨r, hr⟩ := hp.pinned
        exact absurd hr (hunpinned p r)
      · obtain ⟨r, hr⟩ := dooms_pinned hp
        exact absurd hr (hunpinned e.p r)
      · obtain rfl := Option.some.inj (hk.symm.trans hget.key_self)
        exact (backed_lateGet hinv hC h hlate hget hfree).imp_right fun hs => .inl (hstored hs)

/-- **Hits are backed by data**, in every run in which owners only give nodes up, and tasks with
unchecked shards only fail, when the nodes are ready or their shards are in the backend: when `Exist`
reports a shard that is not in the backend, its node is ready, or a live owner is going to fill it. -/
theorem exist_backed (cfg : Config) (n : Nat) (s : State n)
    (h : (storeMachine cfg n).Reach (GivesUpStored cfg) s) (blockId : BlockId) (shardIdx : Nat)
    (hex : s.buf.exist cfg.buffer blockId shardIdx = true) (hstored : (blockId, shardIdx) ∉ s.stored) :
    ∃ i, s.buf.Keyed i blockId shardIdx ∧ (s.buf.ready i = true ∨ s.Filled i) := by
  have hboth : StoreInv cfg s ∧ Backed s := by
    refine h.inv (I := fun s => StoreInv cfg s ∧ Backed s) (fun s hs => ?_)
      fun s e s' hs hC hstep => ⟨storeInv_step hs.1 hstep, backed_step hs.1 hC hstep hs.2⟩
    refine ⟨storeInv_init hs, fun i k hk => ?_⟩
    rw [hs.1] at hk
    cases hk
  obtain ⟨hinv, hbacked⟩ := hboth
  obtain ⟨chain, hrep⟩ := hinv.rep
  obtain ⟨i, hi⟩ := hrep.exist_iff.mp hex
  refine ⟨i, hi, ?_⟩
  rcases hbacked i _ ((TransBuffer.pool_key_iff _ _ _ _).mpr hi) with hr | hs | hf
  · exact .inl hr
  · exact absurd hs hstored
  · exact .inr hf

/-- The transfer thread waits for a backend load that fails, and drops the shard. -/
def failTransfer (p : Fin n) (handle : Nat) : List (Event n) :=
  ⟨p, .backendFinish handle false, {}⟩ :: List.replicate 6 ⟨p, .loadTransfer, {}⟩

/-- A load of a shard that the backend does not have fails; its node stays in the table, and `Exist`
reports the shard. -/
theorem exist_unbacked :
    ∃ s, (storeMachine .small 1).Reachable s ∧ s.buf.exist BufferConfig.small 7 0 = true ∧
      (7, 0) ∉ s.stored ∧
      ¬ ∃ i, s.buf.Keyed i 7 0 ∧ (s.buf.ready i = true ∨ s.Filled i) := by
  obtain ⟨s, hs, hp⟩ := Machine.exists_reachable_of_run (M := storeMachine .small 1)
    (s := .start 1 ∅) (l := ⟨0, .submit .load [⟨7, 0, [100]⟩] 0, {}⟩ :: dispatchOne 0 1 ++
      failTransfer 0 1) (p := fun s => s.buf.exist BufferConfig.small 7 0 ∧ (7, 0) ∉ s.stored ∧
      ((s.buf.metaAt 0).hash ≠ none ∧ (s.buf.metaAt 0).block = 7 ∧ (s.buf.metaAt 0).shard = 0) ∧
      s.buf.ready 0 = false ∧ s.pins = 0) ⟨rfl, fun _ => rfl⟩ (by decide +kernel)
  obtain ⟨hex, hst, hk, hr, hpins⟩ := hp
  refine ⟨s, hs, hex, hst, ?_⟩
  rintro ⟨i, hi, hcase⟩
  obtain ⟨chain, hrep⟩ := (storeInv_reach hs).rep
  obtain rfl : i = 0 := hrep.key_inj i 0 7 0 hi hk
  rcases hcase with hready | ⟨⟨x, hx, -⟩, -⟩
  · rw [hr] at hready
    cases hready
  · rw [hpins] at hx
    exact Multiset.notMem_zero x hx

/-- A load in flight. -/
theorem exist_backed_in_flight :
    ∃ s, (storeMachine .small 1).Reach (GivesUpStored .small) s ∧
      ∃ i, s.buf.Keyed i 7 0 ∧ (s.buf.ready i = true ∨ s.Filled i) := by
  obtain ⟨s, hs, hp⟩ := Machine.exists_reachable_of_run
    (M := (storeMachine .small 1).guard fun s e =>
      decide ((s.procs e.p).givesUp .small e.env e.act ++
      (s.procs e.p).dooms e.act = []) && decide ((s.procs e.p).lateGet e.act = none))
    (s := .start 1 ∅) (l := ⟨0, .submit .load [⟨7, 0, [100]⟩] 0, {}⟩ :: dispatchOne 0 1)
    (p := fun s => s.buf.exist BufferConfig.small 7 0 ∧ (7, 0) ∉ s.stored) ⟨rfl, fun _ => rfl⟩
    (by decide +kernel)
  have hreach := Machine.Reach.of_guard (C := GivesUpStored .small)
    (fun s e _ hc => by
      rw [Bool.and_eq_true, decide_eq_true_eq, decide_eq_true_eq] at hc
      rw [GivesUpStored, hc.1, hc.2]
      exact ⟨fun i hi => absurd hi List.not_mem_nil, fun k hk => by cases hk⟩) hs
  exact ⟨s, hreach, exist_backed .small 1 s hreach 7 0 hp.1 hp.2⟩

/-! ## Waiters -/

theorem Effect.waiter (he : Effect cfg env act buf q buf' q')
    (hrep : ∃ chain, TransBuffer.RepInv cfg.buffer buf chain) (hi : (i, .wait) ∈ q'.pins) :
    (i, .wait) ∈ q.pins ∨ buf'.ready i = true ∨
      ∃ k, q.loadGet act = some k ∧ (buf.pool i).key = some k ∧ 0 < (buf.pool i).reference := by
  obtain ⟨chain, hrep⟩ := hrep
  cases he with
  | retag hbuf hpins hbackend =>
    obtain ⟨x, hx, hxy⟩ := Multiset.exists_mem_of_rel_of_mem (Multiset.rel_flip.mpr hpins) hi
    rw [flip] at hxy
    generalize hy : ((i, .wait) : Pin) = y at hxy
    cases hxy with
    | same => exact .inl (hy ▸ hx)
    | settled j k r hready => cases hy; exact .inr (.inl hready)
    | waited => cases hy
    | gaveUp => cases hy
  | search k allowReserved hget hpins hbackend =>
    rw [hpins] at hi
    exact .inl hi
  | get k allowReserved hd r hget hrole hpins hbackend =>
    rw [hpins, Multiset.mem_add, Multiset.mem_singleton] at hi
    rcases hi with hi | hi
    · cases hi
      rcases hrole with ⟨-, hr⟩ | ⟨ho, hr | ⟨-, hload⟩⟩
      · cases hr
      · cases hr
      · have hg := (hrep.get k.1 k.2 allowReserved env.tryLocks).2
        rw [hget, Option.map_some, ho] at hg
        exact .inr (.inr ⟨k, hload, hg.hit_of_not_owner⟩)
    · exact .inl hi
  | release j hpins hbackend =>
    rw [hpins]
    exact .inl (Multiset.mem_add.mpr (.inr hi))
  | submitLoad k j handle rest hpins hpins' hfresh hbackend
  | abandon k j handle rest habandon hj hpins hpins' hbackend =>
    rw [hpins', Multiset.mem_add, Multiset.mem_singleton] at hi
    rw [hpins]
    rcases hi with hi | hi
    · cases hi
    · exact .inl (Multiset.mem_add.mpr (.inr hi))
  | submitDump handle shards hpins hfresh hbackend =>
    rw [hpins] at hi
    exact .inl hi
  | waitLoad k j handle r rest hrole hpins hpins' hbackend =>
    rw [hpins', Multiset.mem_add, Multiset.mem_singleton] at hi
    rw [hpins]
    rcases hi with hi | hi
    · cases hi
      rcases hrole with hr | ⟨hr, -⟩ <;> cases hr
    · exact .inl (Multiset.mem_add.mpr (.inr hi))
  | waitDump handle hpins hbackend =>
    rw [hpins] at hi
    exact .inl hi
  | finish handle ok hact hpins hbackend =>
    rw [hpins] at hi
    exact .inl hi

theorem givesUp_of_loadGet {k : Key} (h : q.loadGet act = some k) :
    q.givesUp cfg env act ++ q.dooms act = [] := by
  cases act with
  | loadDispatcher =>
    simp only [Proc.loadGet] at h
    unfold Proc.givesUp Proc.dooms Proc.failing
    cases hpc : q.load.dispatch <;> rw [hpc] at h <;> simp at h ⊢
  | _ => cases h

/-- Every load that waits for a node waits for its owner. -/
def Awaited (s : State n) : Prop := ∀ i, (i, .wait) ∈ s.pins → s.buf.ready i = true ∨ s.Filled i

theorem awaited_step (hinv : StoreInv cfg s) (hC : GivesUpUnwaited cfg s e)
    (hstep : s.step cfg e = some s') (h : Awaited s) : Awaited s' := by
  obtain ⟨q', hprocs, he, -⟩ := step_effect hstep
  obtain ⟨rest, hrest, hrest'⟩ := pins_update s e.p
  have hkeeps := keeps_step hinv hstep
  -- a waiter of the state before keeps what it waits for
  have hold : ∀ i, (i, .wait) ∈ s.pins → s'.buf.ready i = true ∨ s'.Filled i := by
    intro i hi
    have hready := (hkeeps i (hinv.pinned.reference_pos hi)).2
    rcases h i hi with hr | hf
    · exact .inl (hready hr)
    · rcases filled_step hinv hstep hf with hf | hr | hg
      · exact .inr hf
      · exact .inl hr
      · rcases hC.1 i hg with hr | hno
        · exact .inl (hready hr)
        · exact absurd hi hno
  intro i hi
  rw [hrest' s' q' hprocs, Multiset.mem_add] at hi
  rcases hi with hi | hi
  · rcases he.waiter hinv.rep hi with hi | hr | ⟨k, hload, hkey, href⟩
    · exact hold i (hrest ▸ Multiset.mem_add.mpr (.inl hi))
    · exact .inl hr
    · have hkeyed := (TransBuffer.pool_key_iff _ _ _ _).mp hkey
      rcases hC.2 k hload i hkeyed href with hr | hf
      · exact .inl ((hkeeps i href).2 hr)
      · rcases filled_step hinv hstep hf with hf | hr | hg
        · exact .inr hf
        · exact .inl hr
        · rw [givesUp_of_loadGet hload] at hg
          cases hg
  · exact hold i (hrest ▸ Multiset.mem_add.mpr (.inr hi))

/-- **No orphan waiter**, in every run in which owners only give nodes up, and tasks with unchecked
shards only fail, when the nodes are ready or no load is going to wait for them: a transfer thread in
the loop of `WaitBackendTaskReady` waits for a node that is ready, or that a live owner is going to
mark ready. -/
theorem waiter_has_owner (cfg : Config) (n : Nat) (s : State n)
    (h : (storeMachine cfg n).Reach (GivesUpUnwaited cfg) s) (p : Fin n) (st : ShardTask)
    (hpoll : (s.procs p).load.transfer = .poll st ∨ (s.procs p).load.transfer = .pollFailed st) :
    s.buf.ready st.bufferHandle.pos = true ∨ s.Filled st.bufferHandle.pos := by
  have hboth : StoreInv cfg s ∧ Awaited s := by
    refine h.inv (I := fun s => StoreInv cfg s ∧ Awaited s) (fun s hs => ?_)
      fun s e s' hs hC hstep => ⟨storeInv_step hs.1 hstep, awaited_step hs.1 hC hstep hs.2⟩
    refine ⟨storeInv_init hs, fun i hi => ?_⟩
    have hpins : s.pins = 0 := Finset.sum_eq_zero fun p _ => by rw [hs.2 p]; rfl
    rw [hpins] at hi
    exact absurd hi (Multiset.notMem_zero _)
  refine hboth.2 _ (mem_pins (p := p) ?_)
  rw [pins_loadTransfer]
  rcases hpoll with hpc | hpc <;> rw [hpc] <;>
    exact Multiset.mem_add.mpr (.inl (List.mem_singleton_self _))

/-- The dispatcher loads one shard that somebody else is loading. -/
def dispatchShared (p : Fin n) : List (Event n) := List.replicate 5 ⟨p, .loadDispatcher, {}⟩

/-- Two loads of the same shard; the first fails, and the second waits for a node that nobody is
going to mark ready. -/
theorem orphan_waiter :
    ∃ s, (storeMachine .small 1).Reachable s ∧ ∃ st, (s.procs 0).load.transfer = .poll st ∧
      st.bufferHandle.owner = false ∧ st.taskHandle ∉ (s.procs 0).tasks.failureSet ∧
      ¬ (s.buf.ready st.bufferHandle.pos = true ∨ s.Filled st.bufferHandle.pos) := by
  obtain ⟨s, hs, hp⟩ := Machine.exists_reachable_of_run (M := storeMachine .small 1)
    (s := .start 1 ∅) (l := ⟨0, .submit .load [⟨7, 0, [100]⟩] 0, {}⟩ :: ⟨0,
      .submit .load [⟨7, 0, [200]⟩] 0, {}⟩ :: dispatchOne 0 1 ++ dispatchShared 0 ++
      failTransfer 0 1 ++ List.replicate 2 ⟨0, .loadTransfer, {}⟩) (p := fun s =>
      (s.procs 0).load.transfer = .poll ⟨2, ⟨7, 0, [200]⟩, ⟨0, false⟩, 0, true⟩ ∧
      2 ∉ (s.procs 0).tasks.failureSet ∧ s.buf.ready 0 = false ∧ s.pins = {(0, .wait)}) ⟨rfl, fun _ => rfl⟩
    (by decide +kernel)
  obtain ⟨hpc, hf, hr, hpins⟩ := hp
  refine ⟨s, hs, _, hpc, rfl, hf, ?_⟩
  rintro (hready | ⟨⟨x, hx, -, hfill⟩, -⟩)
  · rw [hr] at hready
    cases hready
  · rw [hpins, Multiset.mem_singleton] at hx
    subst hx
    cases hfill

/-- Process 1 waits for the shard that process 0 is loading. -/
theorem waiter_has_owner_two_processes :
    ∃ s, (storeMachine .small 2).Reach (GivesUpUnwaited .small) s ∧
      s.buf.ready 0 = false ∧ s.Filled 0 := by
  obtain ⟨s, hs, hp⟩ := Machine.exists_reachable_of_run
    (M := (storeMachine .small 2).guard fun s e =>
      decide ((s.procs e.p).givesUp .small e.env e.act ++ (s.procs e.p).dooms e.act = []) &&
      decide (∀ p, (s.procs p).tasks.failureSet = ∅) &&
      match (s.procs e.p).loadGet e.act with
      | none => true
      | some k => decide (s.pins = 0 ∨ (0, .loading k 1) ∈ s.pins))
    (s := .start 2 ∅)
    (l := ⟨0, .submit .load [⟨7, 0, [100]⟩] 0, {}⟩ :: ⟨1, .submit .load [⟨7, 0, [200]⟩] 0, {}⟩ ::
      dispatchOne 0 1 ++ dispatchShared 1 ++ List.replicate 2 ⟨1, .loadTransfer, {}⟩)
    (p := fun s => (s.procs 1).load.transfer =
      .poll ⟨1, ⟨7, 0, [200]⟩, ⟨0, false⟩, 0, true⟩ ∧ s.buf.ready 0 = false)
    ⟨rfl, fun _ => rfl⟩ (by decide +kernel)
  have hreach := Machine.Reach.of_guard (C := GivesUpUnwaited .small) (fun s e hr hc => ?_) hs
  · refine ⟨s, hreach, hp.2, ?_⟩
    rcases waiter_has_owner .small 2 s hreach 1 _ (.inl hp.1) with h | h
    · rw [hp.2] at h
      cases h
    · exact h
  · rw [Bool.and_eq_true, Bool.and_eq_true, decide_eq_true_eq, decide_eq_true_eq] at hc
    refine ⟨fun i hi => absurd (hc.1.1 ▸ hi) List.not_mem_nil, fun k hk i hkey href => .inr ?_⟩
    have hinv := storeInv_reach hr
    have hcase := hc.2
    simp only [hk, decide_eq_true_eq] at hcase
    rcases hcase with hpins | hpin
    · have h0 := hinv.pinned.count i
      rw [hpins] at h0
      exact absurd h0 (Nat.ne_of_gt href)
    · obtain ⟨chain, hrep⟩ := hinv.rep
      have hkey0 := (TransBuffer.pool_key_iff _ _ _ _).mp (hinv.pinned.key_eq _ hpin k rfl)
      obtain rfl := hrep.key_inj _ _ _ _ hkey hkey0
      refine ⟨⟨_, hpin, rfl, rfl⟩, fun p hp => ?_⟩
      obtain ⟨x, -, hx, -⟩ := hp
      rw [hc.1.2 p] at hx
      exact absurd hx (Finset.notMem_empty _)

end UnifiedCache.Cache
