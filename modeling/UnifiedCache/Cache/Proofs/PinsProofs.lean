import UnifiedCache.Cache.Pins
import Mathlib.Tactic.Abel

/-!
# What one step does to the pins

Every step of every thread is one of the effects listed in `Effect` (`ProcStep.effect`). So the
references of the shared buffer are, at any time, the handles the threads of all processes hold
(`storeInv_reachable`), and a pinned node keeps its key and its contents (`keeps_step`).
-/

open Function Lib

namespace UnifiedCache.Cache

variable {cfg : Config} {env : Env} {act : Action} {buf buf' : TransBuffer} {q q' : Proc}

/-! ## Steps of one process -/

/-- The steps of a process: what it is given of the buffer and the storage, and what it leaves. -/
inductive ProcStep (cfg : Config) (env : Env) (buf : TransBuffer) (stored : Finset Key) (q : Proc) :
    Action → TransBuffer → Finset Key → Proc → Prop where
  | submit (type : TaskType) (desc : List Shard) (prerequisiteHandle : Nat) :
      ProcStep cfg env buf stored q (.submit type desc prerequisiteHandle) buf stored
        (q.submit cfg type desc prerequisiteHandle)
  | waitBegin {id : Nat} {t : Tasks} (h : q.tasks.waitBegin id = some t) :
      ProcStep cfg env buf stored q (.waitBegin id) buf stored { q with tasks := t }
  | waitTimeout {id : Nat} {t : Tasks} (h : q.tasks.waitTimeout cfg id = some t) :
      ProcStep cfg env buf stored q (.waitTimeout id) buf stored { q with tasks := t }
  | waitReturn {id : Nat} {t : Tasks} (h : q.tasks.waitReturn id = some t) :
      ProcStep cfg env buf stored q (.waitReturn id) buf stored { q with tasks := t }
  | loadDispatcher {buf' : TransBuffer} {q' : Proc}
      (h : q.loadDispatcher cfg env buf = some (buf', q')) :
      ProcStep cfg env buf stored q .loadDispatcher buf' stored q'
  | loadTransfer {buf' : TransBuffer} {q' : Proc}
      (h : q.loadTransfer cfg env buf = some (buf', q')) :
      ProcStep cfg env buf stored q .loadTransfer buf' stored q'
  | dumpDispatcher {buf' : TransBuffer} {q' : Proc}
      (h : q.dumpDispatcher cfg env buf = some (buf', q')) :
      ProcStep cfg env buf stored q .dumpDispatcher buf' stored q'
  | dumper {buf' : TransBuffer} {q' : Proc} (h : q.dumper buf = some (buf', q')) :
      ProcStep cfg env buf stored q .dumper buf' stored q'
  | backendFinish {handle : Nat} {ok : Bool} {stored' : Finset Key} {q' : Proc}
      (h : q.backendFinish stored handle ok = some (stored', q')) :
      ProcStep cfg env buf stored q (.backendFinish handle ok) buf stored' q'

/-- **One step of the store** is a step of the process that takes it; the others stay as they are. -/
theorem step_proc {n : Nat} {s s' : State n} {e : Event n} (h : s.step cfg e = some s') :
    ∃ q', s'.procs = update s.procs e.p q' ∧
      ProcStep cfg e.env s.buf s.stored (s.procs e.p) e.act s'.buf s'.stored q' := by
  obtain ⟨p, act, env⟩ := e
  cases act with
  | submit type desc ph =>
    cases h
    exact ⟨_, rfl, .submit type desc ph⟩
  | waitBegin id =>
    obtain ⟨t, ht, rfl⟩ := Option.map_eq_some_iff.mp h
    exact ⟨_, rfl, .waitBegin ht⟩
  | waitTimeout id =>
    obtain ⟨t, ht, rfl⟩ := Option.map_eq_some_iff.mp h
    exact ⟨_, rfl, .waitTimeout ht⟩
  | waitReturn id =>
    obtain ⟨t, ht, rfl⟩ := Option.map_eq_some_iff.mp h
    exact ⟨_, rfl, .waitReturn ht⟩
  | loadDispatcher =>
    obtain ⟨r, hr, rfl⟩ := Option.map_eq_some_iff.mp h
    exact ⟨_, rfl, .loadDispatcher hr⟩
  | loadTransfer =>
    obtain ⟨r, hr, rfl⟩ := Option.map_eq_some_iff.mp h
    exact ⟨_, rfl, .loadTransfer hr⟩
  | dumpDispatcher =>
    obtain ⟨r, hr, rfl⟩ := Option.map_eq_some_iff.mp h
    exact ⟨_, rfl, .dumpDispatcher hr⟩
  | dumper =>
    obtain ⟨r, hr, rfl⟩ := Option.map_eq_some_iff.mp h
    exact ⟨_, rfl, .dumper hr⟩
  | backendFinish handle ok =>
    obtain ⟨r, hr, rfl⟩ := Option.map_eq_some_iff.mp h
    exact ⟨_, rfl, .backendFinish hr⟩

/-! ## The pins of one thread and those of the others -/

theorem pins_loadDispatch (q : Proc) : q.pins = (q.load.dispatch.pins : Multiset Pin) +
    Proc.pins { q with load := { q.load with dispatch := .idle } } := by
  simp only [Proc.pins, DispatchPc.pins, Multiset.coe_nil]
  abel

theorem pins_loadTransfer (q : Proc) : q.pins = (q.load.transfer.pins : Multiset Pin) +
    Proc.pins { q with load := { q.load with transfer := .idle } } := by
  simp only [Proc.pins, TransferPc.pins, Multiset.coe_nil]
  abel

theorem pins_dumpDispatch (q : Proc) : q.pins = (q.dump.dispatch.pins : Multiset Pin) +
    Proc.pins { q with dump := { q.dump with dispatch := .idle } } := by
  simp only [Proc.pins, DumpPc.pins, Multiset.coe_nil]
  abel

theorem pins_dumper (q : Proc) : q.pins = (q.dump.dumper.pins : Multiset Pin) +
    Proc.pins { q with dump := { q.dump with dumper := .idle } } := by
  simp only [Proc.pins, DumperPc.pins, Multiset.coe_nil]
  abel

/-! ## Effects -/

variable {ready : Nat → Bool} {givesUp : List Nat}

theorem Retagged.rel_refl (A : Multiset Pin) :
    Multiset.Rel (Retagged ready givesUp) A A :=
  Multiset.rel_refl_of_refl_on fun x _ => .same x

theorem Effect.quiet (hpins : q'.pins = q.pins)
    (hbackend : q'.backend = q.backend) : Effect cfg env act buf q buf q' := by
  refine .retag (.inl rfl) ?_ hbackend
  rw [hpins]
  exact Retagged.rel_refl _

theorem rel_of_forall₂ {α : Type*} {r : α → α → Prop} {l l' : List α}
    (h : List.Forall₂ r l l') : Multiset.Rel r (l : Multiset α) (l' : Multiset α) := by
  induction h with
  | nil => exact .zero
  | cons hab _ ih => exact .cons hab ih

theorem Effect.roles {l l' : List Pin} {rest : Multiset Pin}
    (hbuf : buf' = buf ∨ ∃ x, q.marks act = some x ∧ buf' = buf.markReady x.1)
    (hpins : q.pins = (l : Multiset Pin) + rest) (hpins' : q'.pins = (l' : Multiset Pin) + rest)
    (hl : List.Forall₂ (Retagged buf'.ready (q.givesUp cfg env act)) l l')
    (hbackend : q'.backend = q.backend) : Effect cfg env act buf q buf' q' := by
  refine .retag hbuf ?_ hbackend
  rw [hpins, hpins']
  exact (rel_of_forall₂ hl).add (Retagged.rel_refl _)

theorem submitBackend_eq_some {type : TaskType} {shards : List (Key × Nat)}
    {r : Option Nat × Proc} (h : q.submitBackend env type shards = some r) :
    env.handle = none ∧ r = (none, q) ∨
      ∃ handle, env.handle = some handle ∧ handle ≠ 0 ∧
        handle ∉ q.backend.map BackendTask.handle ∧
        r = (some handle, { q with backend := q.backend ++ [⟨handle, type, shards, none, false⟩] }) := by
  unfold Proc.submitBackend at h
  cases he : env.handle with
  | none =>
    simp only [he, Option.some.injEq] at h
    exact .inl ⟨rfl, h.symm⟩
  | some handle =>
    simp only [he] at h
    split_ifs at h with hc
    · rw [not_or] at hc
      exact .inr ⟨handle, rfl, hc.1, hc.2, (Option.some.inj h).symm⟩

theorem waitBackend_eq_some {handle : Nat} {ok : Bool}
    (h : q.waitBackend handle = some (ok, q')) :
    q' = { q with backend := markWaited handle q.backend } := by
  unfold Proc.waitBackend at h
  cases hf : q.backend.find? (·.handle = handle) with
  | none =>
    simp only [hf, Option.some.injEq, Prod.mk.injEq] at h
    have hid : markWaited handle q.backend = q.backend := by
      rw [List.find?_eq_none] at hf
      refine (List.map_congr_left fun b hb => ?_).trans (List.map_id _)
      have hne : ¬ b.handle = handle := by simpa using hf b hb
      rw [if_neg hne, id]
    rw [hid, ← h.2]
  | some b =>
    simp only [hf] at h
    split at h
    · cases h
    · cases h
      rfl

variable {task : TransTask}

/-- The load dispatcher finds no node, gets one as its owner, or as somebody who waits for the owner. -/
theorem loadDispatcher_get {shard : Shard} {rest : List Shard}
    (hpc : q.load.dispatch = .get task (shard :: rest))
    (h : q.loadDispatcher cfg env buf = some (buf', q')) :
    buf.get cfg.buffer shard.owner shard.index true env.tryLocks = (none, buf') ∧ q' = q ∨
      ∃ hd, buf.get cfg.buffer shard.owner shard.index true env.tryLocks = (some hd, buf') ∧
        (hd.owner = true ∧
            q' = { q with load := { q.load with dispatch := .ready task shard rest hd } } ∨
          hd.owner = false ∧ q' = { q with load := { q.load with
            dispatch := .push task ⟨task.id, shard, hd, 0, rest.isEmpty⟩ rest } }) := by
  simp only [Proc.loadDispatcher, hpc] at h
  generalize buf.get cfg.buffer shard.owner shard.index true env.tryLocks = r at h ⊢
  obtain ⟨_ | hd, buf1⟩ := r
  · cases h
    exact .inl ⟨rfl, rfl⟩
  · dsimp only at h
    split_ifs at h with ho <;> cases h
    · exact .inr ⟨hd, rfl, .inl ⟨ho, rfl⟩⟩
    · exact .inr ⟨hd, rfl, .inr ⟨Bool.eq_false_iff.mpr ho, rfl⟩⟩

/-- The backend refuses the load of the shard, or takes it under a new handle. -/
theorem loadDispatcher_submit {shard : Shard} {rest : List Shard} {hd : Handle}
    (hpc : q.load.dispatch = .submit task shard rest hd)
    (h : q.loadDispatcher cfg env buf = some (buf', q')) :
    buf' = buf ∧ (env.handle = none ∧
        q' = { q with load := { q.load with dispatch := .failInsert task hd } } ∨
      ∃ handle, handle ≠ 0 ∧ handle ∉ q.backend.map BackendTask.handle ∧ q' = { q with
        backend := q.backend ++ [⟨handle, .load, [(shard.key, hd.pos)], none, false⟩]
        load := { q.load with
          dispatch := .push task ⟨task.id, shard, hd, handle, rest.isEmpty⟩ rest } }) := by
  simp only [Proc.loadDispatcher, hpc] at h
  cases hsub : q.submitBackend env .load [(shard.key, hd.pos)] with
  | none => simp [hsub] at h
  | some r =>
    rcases submitBackend_eq_some hsub with ⟨henv, rfl⟩ | ⟨handle, -, h0, hfresh, rfl⟩ <;>
      simp only [hsub] at h <;> cases h
    · exact ⟨rfl, .inl ⟨henv, rfl⟩⟩
    · exact ⟨rfl, .inr ⟨handle, h0, hfresh, rfl⟩⟩

/-- The transfer thread comes back from the backend. -/
theorem loadTransfer_waitBackend {st : ShardTask} (hpc : q.load.transfer = .waitBackend st)
    (h : q.loadTransfer cfg env buf = some (buf', q')) :
    buf' = buf ∧ ∃ ok q1, q.waitBackend st.backendTaskHandle = some (ok, q1) ∧ q' = { q with
      backend := markWaited st.backendTaskHandle q.backend
      load := { q.load with transfer := bif ok then .markReady st else .fail st } } := by
  simp only [Proc.loadTransfer, hpc] at h
  cases hw : q.waitBackend st.backendTaskHandle with
  | none => simp [hw] at h
  | some r =>
    obtain ⟨ok, q1⟩ := r
    cases ok <;> simp only [hw] at h <;> cases h <;> obtain rfl := waitBackend_eq_some hw <;>
      exact ⟨rfl, _, _, rfl, rfl⟩

/-- The dump dispatcher finds no node, gets one as its owner, or one to skip. -/
theorem dumpDispatcher_get {shard : Shard} {rest : List Shard} {acc : List (Shard × Handle)}
    (hpc : q.dump.dispatch = .get task (shard :: rest) acc)
    (h : q.dumpDispatcher cfg env buf = some (buf', q')) :
    buf.get cfg.buffer shard.owner shard.index false env.tryLocks = (none, buf') ∧ q' = q ∨
      ∃ hd, buf.get cfg.buffer shard.owner shard.index false env.tryLocks = (some hd, buf') ∧
        (hd.owner = true ∧
            q' = { q with dump := { q.dump with dispatch := .ready task shard rest acc hd } } ∨
          hd.owner = false ∧
            q' = { q with dump := { q.dump with dispatch := .skip task rest acc hd } }) := by
  simp only [Proc.dumpDispatcher, hpc] at h
  generalize buf.get cfg.buffer shard.owner shard.index false env.tryLocks = r at h ⊢
  obtain ⟨_ | hd, buf1⟩ := r
  · cases h
    exact .inl ⟨rfl, rfl⟩
  · dsimp only at h
    split_ifs at h with ho <;> cases h
    · exact .inr ⟨hd, rfl, .inl ⟨ho, rfl⟩⟩
    · exact .inr ⟨hd, rfl, .inr ⟨Bool.eq_false_iff.mpr ho, rfl⟩⟩

/-- The backend refuses the dump, or takes it under a new handle. -/
theorem dumpDispatcher_submit {acc : List (Shard × Handle)}
    (hpc : q.dump.dispatch = .submit task acc) (h : q.dumpDispatcher cfg env buf = some (buf', q')) :
    buf' = buf ∧ (env.handle = none ∧
        q' = { q with dump := { q.dump with dispatch := .unwind task (acc.map (·.2)) } } ∨
      ∃ handle, env.handle = some handle ∧ handle ≠ 0 ∧
        handle ∉ q.backend.map BackendTask.handle ∧ q' = { q with
          backend := q.backend ++
            [⟨handle, .dump, acc.map fun x => (x.1.key, x.2.pos), none, false⟩]
          dump := { q.dump with dispatch := .push task acc handle } }) := by
  simp only [Proc.dumpDispatcher, hpc] at h
  cases hsub : q.submitBackend env .dump (acc.map fun x => (x.1.key, x.2.pos)) with
  | none => simp [hsub] at h
  | some r =>
    rcases submitBackend_eq_some hsub with ⟨henv, rfl⟩ | ⟨handle, henv, h0, hfresh, rfl⟩ <;>
      simp only [hsub] at h <;> cases h
    · exact ⟨rfl, .inl ⟨henv, rfl⟩⟩
    · exact ⟨rfl, .inr ⟨handle, henv, h0, hfresh, rfl⟩⟩

/-- What the dumper leaves alone. -/
theorem dumper_frame (h : q.dumper buf = some (buf', q')) :
    q'.tasks = q.tasks ∧ q'.load = q.load ∧ q'.dump.waiting = q.dump.waiting ∧
      q'.dump.dispatch = q.dump.dispatch ∧ q'.dump.copies = q.dump.copies ∧
      q'.dump.streamIndex = q.dump.streamIndex := by
  unfold Proc.dumper at h
  split at h
  · split at h <;> cases h
    exact ⟨rfl, rfl, rfl, rfl, rfl, rfl⟩
  · split at h
    · cases h
    · rename_i hw
      obtain rfl := waitBackend_eq_some hw
      cases h
      exact ⟨rfl, rfl, rfl, rfl, rfl, rfl⟩
  · cases h
    exact ⟨rfl, rfl, rfl, rfl, rfl, rfl⟩
  · cases h
    exact ⟨rfl, rfl, rfl, rfl, rfl, rfl⟩

theorem loadDispatcher_effect (h : q.loadDispatcher cfg env buf = some (buf', q')) :
    Effect cfg env .loadDispatcher buf q buf' q' := by
  have hp := pins_loadDispatch q
  cases hpc : q.load.dispatch with
  | idle =>
    simp only [Proc.loadDispatcher, hpc] at h
    split at h
    · cases h
    · cases h
      exact .quiet (by rw [hp, hpc]; rfl) rfl
  | check task =>
    simp only [Proc.loadDispatcher, hpc] at h
    split at h <;> cases h <;> exact .quiet (by rw [hp, hpc]; rfl) rfl
  | skip task | failInsert task hd | failDone task hd =>
    simp only [Proc.loadDispatcher, hpc] at h
    cases h
    exact .quiet (by rw [hp, hpc]; rfl) rfl
  | get task rest =>
    cases rest with
    | nil =>
      simp only [Proc.loadDispatcher, hpc] at h
      cases h
      exact .quiet (by rw [hp, hpc]; rfl) rfl
    | cons shard rest =>
      have hk : q.loadGet .loadDispatcher = some shard.key := by simp [Proc.loadGet, hpc]
      rcases loadDispatcher_get hpc h with ⟨hg, rfl⟩ | ⟨hd, hg, ⟨ho, rfl⟩ | ⟨ho, rfl⟩⟩
      · exact .search shard.key true hg rfl rfl
      · exact .get shard.key true hd _ hg (.inl ⟨ho, rfl⟩) (by rw [hp, hpc]; rfl) rfl
      · exact .get shard.key true hd _ hg (.inr ⟨ho, .inr ⟨rfl, hk⟩⟩) (by rw [hp, hpc]; rfl) rfl
  | ready task shard rest hd =>
    simp only [Proc.loadDispatcher, hpc] at h
    split at h <;> cases h
    · rw [hpc] at hp
      refine .roles (.inl rfl) hp (pins_loadDispatch _) (.cons ?_ .nil) rfl
      exact .settled _ _ _ ‹_› (.inr rfl)
    · exact .quiet (by rw [hp, hpc]; rfl) rfl
  | submit task shard rest hd =>
    obtain ⟨rfl, ⟨henv, rfl⟩ | ⟨handle, h0, hfresh, rfl⟩⟩ := loadDispatcher_submit hpc h
    · rw [hpc] at hp
      refine .roles (.inl rfl) hp (pins_loadDispatch _) (.cons ?_ .nil) rfl
      exact .gaveUp _ _ (by simp [Proc.givesUp, hpc, henv])
    · refine .submitLoad shard.key hd.pos handle _ (by rw [hp, hpc]; rfl) ?_ hfresh rfl
      rw [pins_loadDispatch]
      simp only [DispatchPc.pins, ShardTask.pin, if_neg h0]
      rfl
  | failDrop hd =>
    simp only [Proc.loadDispatcher, hpc] at h
    cases h
    exact .release hd.pos (by rw [hp, hpc]; rfl) rfl
  | push task st rest =>
    simp only [Proc.loadDispatcher, hpc] at h
    split at h <;> cases h
    refine .quiet ?_ rfl
    simp only [Proc.pins, hpc, DispatchPc.pins, List.map_append, List.map_cons, List.map_nil,
      ← Multiset.coe_add, Multiset.coe_nil]
    abel

theorem loadTransfer_effect (h : q.loadTransfer cfg env buf = some (buf', q')) :
    Effect cfg env .loadTransfer buf q buf' q' := by
  have hp := pins_loadTransfer q
  cases hpc : q.load.transfer with
  | idle =>
    simp only [Proc.loadTransfer, hpc] at h
    split at h
    · cases h
    · rename_i st running hrun
      cases h
      refine .quiet ?_ rfl
      simp only [Proc.pins, hpc, hrun, TransferPc.pins, List.map_cons, Multiset.coe_nil]
      rw [← Multiset.cons_coe, ← Multiset.cons_coe, ← Multiset.singleton_add,
        ← Multiset.singleton_add, Multiset.coe_nil]
      abel
  | check st =>
    have hpin : st.pin = (st.bufferHandle.pos,
      if st.backendTaskHandle = 0 then .wait else .loading st.shard.key st.backendTaskHandle) := rfl
    rw [hpc] at hp
    simp only [Proc.loadTransfer, hpc] at h
    split_ifs at h with hf hb <;> cases h
    · by_cases hb : st.backendTaskHandle = 0
      · refine .roles (.inl rfl) hp (pins_loadTransfer _) (.cons ?_ .nil) rfl
        rw [hpin, if_pos hb]
        exact .waited _
      · rw [if_neg hb] at hpin
        refine .abandon st.shard.key st.bufferHandle.pos st.backendTaskHandle _ ?_ ?_
          (hp.trans (by rw [TransferPc.pins, hpin]; rfl)) (pins_loadTransfer _) rfl
        · simp [Proc.abandons, hpc, hf, hb]
        · simp [Proc.givesUp, hpc, hf, hb]
    · rw [if_neg hb] at hpin
      rw [TransferPc.pins, hpin] at hp
      exact .quiet ((pins_loadTransfer _).trans hp.symm) rfl
    · rw [not_not] at hb
      rw [if_pos hb] at hpin
      rw [TransferPc.pins, hpin] at hp
      exact .quiet ((pins_loadTransfer _).trans hp.symm) rfl
  | waitBackend st =>
    rw [hpc] at hp
    obtain ⟨rfl, _ | _, q1, hw, rfl⟩ := loadTransfer_waitBackend hpc h
    · refine .waitLoad st.shard.key st.bufferHandle.pos st.backendTaskHandle .plain _
        (.inr ⟨rfl, ?_⟩) hp (pins_loadTransfer _) rfl
      simp [Proc.givesUp, hpc, hw]
    · exact .waitLoad st.shard.key st.bufferHandle.pos st.backendTaskHandle _ _ (.inl rfl) hp
        (pins_loadTransfer _) rfl
  | markReady st =>
    rw [hpc] at hp
    simp only [Proc.loadTransfer, hpc] at h
    cases h
    refine .roles (.inr ⟨_, by rw [Proc.marks, hpc], rfl⟩) hp (pins_loadTransfer _) (.cons ?_ .nil) rfl
    exact .settled _ _ _ (by simp [TransBuffer.ready, TransBuffer.markReady]) (.inl rfl)
  | poll st =>
    rw [hpc] at hp
    simp only [Proc.loadTransfer, hpc] at h
    split_ifs at h with hr <;> cases h
    · refine .roles (.inl rfl) hp (pins_loadTransfer _) (.cons ?_ .nil) rfl
      exact .waited _
    · exact .quiet ((pins_loadTransfer _).trans hp.symm) rfl
  | pollFailed st =>
    rw [hpc] at hp
    simp only [Proc.loadTransfer, hpc] at h
    split_ifs at h with hf <;> cases h
    · refine .roles (.inl rfl) hp (pins_loadTransfer _) (.cons ?_ .nil) rfl
      exact .waited _
    · exact .quiet ((pins_loadTransfer _).trans hp.symm) rfl
  | h2d st =>
    simp only [Proc.loadTransfer, hpc] at h
    split_ifs at h with hok hw <;> cases h
    · rw [hpc] at hp
      exact .quiet ((pins_loadTransfer _).trans hp.symm) rfl
    · refine .quiet ?_ rfl
      simp only [Proc.pins, hpc, TransferPc.pins, List.map_append, List.map_cons, List.map_nil,
        ← Multiset.coe_add, Multiset.coe_nil]
      abel
    · rw [hpc] at hp
      exact .quiet ((pins_loadTransfer _).trans hp.symm) rfl
  | sync st | fail st =>
    simp only [Proc.loadTransfer, hpc] at h
    cases h
    rw [hpc] at hp
    exact .quiet ((pins_loadTransfer _).trans hp.symm) rfl
  | clear st ok =>
    simp only [Proc.loadTransfer, hpc] at h
    split at h
    · cases h
      rw [hpc] at hp
      cases ok <;> exact .quiet ((pins_loadTransfer _).trans hp.symm) rfl
    · rename_i held holder hhold
      cases h
      refine .release held.bufferHandle.pos ?_ rfl
      simp only [Proc.pins, hpc, hhold, List.map_cons]
      rw [← Multiset.cons_coe, ← Multiset.singleton_add]
      simp only [ShardTask.plain]
      abel
  | done st =>
    simp only [Proc.loadTransfer, hpc] at h
    cases h
    rw [hpc] at hp
    cases st.waiter <;> exact .quiet ((pins_loadTransfer _).trans hp.symm) rfl
  | drop st =>
    simp only [Proc.loadTransfer, hpc] at h
    cases h
    exact .release st.bufferHandle.pos (by rw [hp, hpc]; rfl) rfl

theorem coe_map_fillPin_append (acc : List (Shard × Handle)) (x : Shard × Handle) :
    ((acc ++ [x]).map fillPin : Multiset Pin) = (fillPin x :: acc.map fillPin : List Pin) := by
  rw [Multiset.coe_eq_coe, List.map_append]
  exact List.perm_append_singleton _ _

theorem forall₂_gaveUp (acc : List (Shard × Handle)) (h : ∀ x ∈ acc, x.2.pos ∈ givesUp) :
    List.Forall₂ (Retagged ready givesUp) (acc.map fillPin)
      ((acc.map (·.2)).map Handle.plain) := by
  induction acc with
  | nil => exact .nil
  | cons x acc ih =>
    rw [List.forall_mem_cons] at h
    exact .cons (.gaveUp _ _ h.1) (ih h.2)

theorem forall₂_markReady (acc todo : List (Shard × Handle)) (x : Shard × Handle)
    (hx : ready x.2.pos = true) :
    List.Forall₂ (Retagged ready givesUp)
      (acc.map fun y => if y ∈ x :: todo then fillPin y else y.2.plain)
      (acc.map fun y => if y ∈ todo then fillPin y else y.2.plain) := by
  rw [List.forall₂_map_left_iff, List.forall₂_map_right_iff, List.forall₂_same]
  intro y _
  by_cases hy : y ∈ todo
  · rw [if_pos hy, if_pos (List.mem_cons_of_mem _ hy)]
    exact .same _
  · rw [if_neg hy]
    by_cases hyx : y = x
    · subst hyx
      rw [if_pos List.mem_cons_self]
      exact .settled _ _ _ hx (.inl rfl)
    · rw [if_neg (by simp [hy, hyx])]
      exact .same _

theorem dumpDispatcher_effect (h : q.dumpDispatcher cfg env buf = some (buf', q')) :
    Effect cfg env .dumpDispatcher buf q buf' q' := by
  have hp := pins_dumpDispatch q
  have hquiet : ∀ {q1 : Proc} {l : List Pin} {rest : Multiset Pin},
      q.pins = (l : Multiset Pin) + rest → q1.pins = (l : Multiset Pin) + rest →
      q1.backend = q.backend → Effect cfg env .dumpDispatcher buf q buf q1 :=
    fun h1 h2 hb => .quiet (h2.trans h1.symm) hb
  cases hpc : q.dump.dispatch with
  | idle =>
    simp only [Proc.dumpDispatcher, hpc] at h
    rw [hpc] at hp
    split at h <;> cases h
    exact hquiet hp (pins_dumpDispatch _) rfl
  | check task | waitEvent task =>
    simp only [Proc.dumpDispatcher, hpc] at h
    rw [hpc] at hp
    split_ifs at h <;> cases h <;> exact hquiet hp (pins_dumpDispatch _) rfl
  | get task rest acc =>
    rw [hpc] at hp
    cases rest with
    | nil =>
      simp only [Proc.dumpDispatcher, hpc] at h
      cases acc <;> cases h <;> exact hquiet hp (pins_dumpDispatch _) rfl
    | cons shard rest =>
      rcases dumpDispatcher_get hpc h with ⟨hg, rfl⟩ | ⟨hd, hg, ⟨ho, rfl⟩ | ⟨ho, rfl⟩⟩
      · exact .search shard.key false hg rfl rfl
      · refine .get shard.key false hd _ hg (.inl ⟨ho, rfl⟩) ?_ rfl
        rw [hp, ← add_assoc]
        exact pins_dumpDispatch _
      · refine .get shard.key false hd _ hg (.inr ⟨ho, .inl rfl⟩) ?_ rfl
        rw [hp, ← add_assoc]
        exact pins_dumpDispatch _
  | skip task rest acc hd =>
    simp only [Proc.dumpDispatcher, hpc] at h
    rw [hpc] at hp
    cases h
    refine .release hd.pos ?_ rfl
    rw [hp, pins_dumpDispatch { q with dump := { q.dump with dispatch := .get task rest acc } },
      ← add_assoc]
    rfl
  | ready task shard rest acc hd =>
    simp only [Proc.dumpDispatcher, hpc] at h
    rw [hpc] at hp
    split_ifs at h <;> cases h
    · refine hquiet hp ((pins_dumpDispatch _).trans ?_) rfl
      exact congrArg (· + _) (coe_map_fillPin_append acc (shard, hd))
    · exact hquiet hp (pins_dumpDispatch _) rfl
  | d2h task shard rest acc hd =>
    simp only [Proc.dumpDispatcher, hpc] at h
    split_ifs at h with hok <;> cases h
    · rw [hpc] at hp
      refine hquiet hp ((pins_dumpDispatch _).trans ?_) rfl
      exact congrArg (· + _) (coe_map_fillPin_append acc (shard, hd))
    · have hg : q.givesUp cfg env .dumpDispatcher = hd.pos :: acc.map (·.2.pos) := by
        simp [Proc.givesUp, hpc, hok]
      rw [hpc] at hp
      refine .roles (.inl rfl) hp (pins_dumpDispatch _) ?_ rfl
      rw [hg]
      refine .cons (.gaveUp _ _ List.mem_cons_self) (forall₂_gaveUp acc fun x hx => ?_)
      exact List.mem_cons_of_mem _ (List.mem_map_of_mem hx)
  | sync task acc =>
    simp only [Proc.dumpDispatcher, hpc] at h
    cases h
    by_cases hok : env.syncOk cfg = true
    · rw [hpc] at hp
      have hpins : (DumpPc.markReady task acc acc).pins = acc.map fillPin :=
        List.map_congr_left fun x hx => if_pos hx
      refine hquiet hp ((pins_dumpDispatch _).trans ?_) rfl
      simp only [hok, if_true, hpins]
      rfl
    · have hg : q.givesUp cfg env .dumpDispatcher = acc.map (·.2.pos) := by
        simp [Proc.givesUp, hpc, hok]
      rw [hpc] at hp
      refine .roles (.inl rfl) hp (pins_dumpDispatch _) ?_ rfl
      simp only [hok, hg]
      exact forall₂_gaveUp acc fun x hx => List.mem_map_of_mem hx
  | markReady task acc todo =>
    rw [hpc] at hp
    cases todo with
    | nil =>
      simp only [Proc.dumpDispatcher, hpc] at h
      cases h
      refine hquiet (hp.trans ?_) (pins_dumpDispatch _) rfl
      simp [DumpPc.pins]
    | cons x todo =>
      simp only [Proc.dumpDispatcher, hpc] at h
      cases h
      refine .roles (.inr ⟨_, by rw [Proc.marks, hpc], rfl⟩) hp (pins_dumpDispatch _)
        (forall₂_markReady acc todo x ?_) rfl
      simp [TransBuffer.ready, TransBuffer.markReady]
  | submit task acc =>
    rw [hpc] at hp
    obtain ⟨rfl, ⟨-, rfl⟩ | ⟨handle, -, -, hfresh, rfl⟩⟩ := dumpDispatcher_submit hpc h
    · refine hquiet hp ((pins_dumpDispatch _).trans ?_) rfl
      simp [DumpPc.pins, Function.comp_def]
    · exact .submitDump handle _ ((pins_dumpDispatch _).trans hp.symm) hfresh rfl
  | push task acc handle =>
    simp only [Proc.dumpDispatcher, hpc] at h
    split_ifs at h
    cases h
    refine .quiet ?_ rfl
    simp only [Proc.pins, hpc, DumpPc.pins, List.flatMap_append, List.flatMap_cons,
      List.flatMap_nil, DumpCtx.pins, List.map_map, ← Multiset.coe_add, Multiset.coe_nil]
    simp only [Function.comp_def]
    abel
  | unwind task handles =>
    rw [hpc] at hp
    cases handles with
    | nil =>
      simp only [Proc.dumpDispatcher, hpc] at h
      cases h
      exact hquiet hp (pins_dumpDispatch _) rfl
    | cons hd handles =>
      simp only [Proc.dumpDispatcher, hpc] at h
      cases h
      refine .release hd.pos ?_ rfl
      rw [hp, pins_dumpDispatch { q with dump := { q.dump with dispatch := .unwind task handles } },
        ← add_assoc]
      rfl
  | insert task | done task =>
    simp only [Proc.dumpDispatcher, hpc] at h
    rw [hpc] at hp
    cases h
    exact hquiet hp (pins_dumpDispatch _) rfl

theorem dumper_effect (h : q.dumper buf = some (buf', q')) : Effect cfg env .dumper buf q buf' q' := by
  have hp := pins_dumper q
  cases hpc : q.dump.dumper with
  | idle =>
    simp only [Proc.dumper, hpc] at h
    split at h
    · cases h
    · rename_i ctx dumping hd
      cases h
      refine .quiet ?_ rfl
      have hpins : (if q.dump.finishedBackendTaskHandle < ctx.backendTaskHandle then
          DumperPc.wait ctx else .drop ctx.bufferHandles).pins = ctx.pins := by
        split_ifs <;> rfl
      have hidle : DumperPc.idle.pins = [] := rfl
      simp only [Proc.pins, hpc, hd, hpins, hidle, List.flatMap_cons, ← Multiset.coe_add,
        Multiset.coe_nil]
      abel
  | wait ctx =>
    simp only [Proc.dumper, hpc] at h
    rw [hpc] at hp
    cases hw : q.waitBackend ctx.backendTaskHandle with
    | none => simp [hw] at h
    | some r =>
      obtain ⟨ok, q1⟩ := r
      obtain rfl := waitBackend_eq_some hw
      simp only [hw] at h
      cases h
      exact .waitDump ctx.backendTaskHandle ((pins_dumper _).trans hp.symm) rfl
  | drop handles =>
    rw [hpc] at hp
    cases handles with
    | nil =>
      simp only [Proc.dumper, hpc] at h
      cases h
      exact .quiet ((pins_dumper _).trans hp.symm) rfl
    | cons hd handles =>
      simp only [Proc.dumper, hpc] at h
      cases h
      refine .release hd.pos ?_ rfl
      rw [hp, pins_dumper { q with dump := { q.dump with dumper := .drop handles } }, ← add_assoc]
      rfl

theorem submit_effect (type : TaskType) (desc : List Shard) (prerequisiteHandle : Nat) :
    Effect cfg env act buf q buf (q.submit cfg type desc prerequisiteHandle) := by
  unfold Proc.submit
  cases type <;> dsimp only <;> split_ifs <;> exact .quiet rfl rfl

theorem backendFinish_eq_some {stored : Finset Key} {handle : Nat} {ok : Bool}
    {r : Finset Key × Proc} (h : q.backendFinish stored handle ok = some r) :
    r.2 = { q with backend := markFinished handle ok q.backend } ∧ stored ⊆ r.1 ∧
      ∃ b, q.backend.find? (·.handle = handle) = some b ∧
        (ok = true → b.type = .load → ∀ x ∈ b.shards, x.1 ∈ stored) := by
  unfold Proc.backendFinish at h
  cases hf : q.backend.find? (·.handle = handle) with
  | none => simp [hf] at h
  | some b =>
    simp only [hf] at h
    have hload : ∀ {P : Prop}, ¬ (P ∨ ok = true ∧ b.type = .load ∧ ∃ x ∈ b.shards, x.1 ∉ stored) →
        ok = true → b.type = .load → ∀ x ∈ b.shards, x.1 ∈ stored := by
      intro P hno hok htype x hx
      by_contra hxs
      exact hno (.inr ⟨hok, htype, x, hx, hxs⟩)
    split_ifs at h with hno hst <;> cases h
    · exact ⟨rfl, Finset.subset_union_left, b, rfl, hload hno⟩
    · exact ⟨rfl, subset_rfl, b, rfl, hload hno⟩

theorem ProcStep.effect {stored stored' : Finset Key}
    (h : ProcStep cfg env buf stored q act buf' stored' q') :
    Effect cfg env act buf q buf' q' ∧ stored ⊆ stored' := by
  cases h with
  | submit type desc ph => exact ⟨submit_effect type desc ph, subset_rfl⟩
  | waitBegin | waitTimeout | waitReturn => exact ⟨.quiet rfl rfl, subset_rfl⟩
  | loadDispatcher h => exact ⟨loadDispatcher_effect h, subset_rfl⟩
  | loadTransfer h => exact ⟨loadTransfer_effect h, subset_rfl⟩
  | dumpDispatcher h => exact ⟨dumpDispatcher_effect h, subset_rfl⟩
  | dumper h => exact ⟨dumper_effect h, subset_rfl⟩
  | backendFinish h =>
    obtain ⟨rfl, hst, -⟩ := backendFinish_eq_some h
    exact ⟨.finish _ _ rfl rfl rfl, hst⟩

/-! ## Effects on the pool -/

theorem Retagged.retag {x y : Pin} (h : Retagged ready givesUp x y) : Pool.Retag Role.key x y := by
  cases h with
  | same => exact ⟨rfl, fun _ hk => hk⟩
  | settled i k r hready hr => rcases hr with rfl | rfl <;> exact ⟨rfl, fun _ hk => by cases hk⟩
  | waited i => exact ⟨rfl, fun _ hk => by cases hk⟩
  | gaveUp i k hi => exact ⟨rfl, fun _ hk => by cases hk⟩

theorem retag_refl (A : Multiset Pin) : Multiset.Rel (Pool.Retag Role.key) A A :=
  Multiset.rel_refl_of_refl_on fun _ _ => ⟨rfl, fun _ hk => hk⟩

theorem retag_one {i : Nat} {r r' : Role} (A : Multiset Pin)
    (h : ∀ k, r'.key = some k → r.key = some k) :
    Multiset.Rel (Pool.Retag Role.key) ({(i, r)} + A) ({(i, r')} + A) :=
  (rel_of_forall₂ (.cons ⟨rfl, h⟩ .nil)).add (retag_refl A)

/-- **Every effect keeps the table well formed and the references counted**, whatever the pins of the
other processes are, and leaves pinned nodes their keys and contents. -/
theorem Effect.pinned {rest : Multiset Pin} (he : Effect cfg env act buf q buf' q')
    (hrep : ∃ chain, TransBuffer.RepInv cfg.buffer buf chain)
    (hpin : Pool.Pinned Role.key buf.pool (q.pins + rest)) :
    (∃ chain, TransBuffer.RepInv cfg.buffer buf' chain) ∧
      Pool.Pinned Role.key buf'.pool (q'.pins + rest) ∧ buf.pool.Keeps buf'.pool := by
  obtain ⟨chain, hrep⟩ := hrep
  cases he with
  | retag hbuf hpins hbackend =>
    have hretag := (hpins.mono fun _ _ _ _ h => h.retag).add (retag_refl rest)
    rcases hbuf with rfl | ⟨⟨i, _⟩, -, rfl⟩
    · exact ⟨⟨chain, hrep⟩, hpin.retag hretag, .refl _⟩
    · rw [TransBuffer.markReady_pool]
      exact ⟨⟨chain, hrep.markReady i⟩, (hpin.complete i).retag hretag, Pool.keeps_complete _ i⟩
  | search k allowReserved hget hpins hbackend =>
    obtain ⟨hrep', hg⟩ := hrep.get k.1 k.2 allowReserved env.tryLocks
    rw [hget] at hrep' hg
    rw [hpins]
    exact ⟨hrep', hpin.search hg, hg.keeps⟩
  | get k allowReserved h r hget hrole hpins hbackend =>
    obtain ⟨hrep', hg⟩ := hrep.get k.1 k.2 allowReserved env.tryLocks
    rw [hget] at hrep' hg
    rw [hpins, add_assoc]
    refine ⟨hrep', hpin.get hg ?_, hg.keeps⟩
    rcases hrole with ⟨-, rfl⟩ | ⟨-, rfl | ⟨rfl, -⟩⟩
    · exact .inr rfl
    · exact .inl rfl
    · exact .inl rfl
  | release i hpins hbackend =>
    rw [hpins, add_assoc] at hpin
    rw [TransBuffer.release_pool]
    exact ⟨⟨chain, hrep.release i⟩, hpin.unpin, Pool.keeps_unpin _ i⟩
  | submitLoad k i handle rest' hpins hpins' hfresh hbackend =>
    rw [hpins, add_assoc] at hpin
    rw [hpins', add_assoc]
    exact ⟨⟨chain, hrep⟩, hpin.retag (retag_one _ fun _ hk => hk), .refl _⟩
  | submitDump handle shards hpins hfresh hbackend | waitDump handle hpins hbackend
  | finish handle ok hact hpins hbackend =>
    rw [hpins]
    exact ⟨⟨chain, hrep⟩, hpin, .refl _⟩
  | waitLoad k i handle r rest' hrole hpins hpins' hbackend =>
    rw [hpins, add_assoc] at hpin
    rw [hpins', add_assoc]
    refine ⟨⟨chain, hrep⟩, hpin.retag (retag_one _ ?_), .refl _⟩
    rcases hrole with rfl | ⟨rfl, -⟩
    · exact fun _ hk => hk
    · exact fun _ hk => by cases hk
  | abandon k i handle rest' h hi hpins hpins' hbackend =>
    rw [hpins, add_assoc] at hpin
    rw [hpins', add_assoc]
    exact ⟨⟨chain, hrep⟩, hpin.retag (retag_one _ fun _ hk => by cases hk), .refl _⟩

theorem Effect.key_cases (he : Effect cfg env act buf q buf' q')
    (hrep : ∃ chain, TransBuffer.RepInv cfg.buffer buf chain) {j : Nat} {k : Key}
    (hj : (buf'.pool j).key = some k) :
    (buf.pool j).key = some k ∧ ((buf.pool j).ready = true → (buf'.pool j).ready = true) ∨
      (j, .fill k) ∈ q'.pins ∧ (buf'.pool j).ready = false := by
  obtain ⟨chain, hrep⟩ := hrep
  cases he with
  | retag hbuf hpins hbackend =>
    rcases hbuf with rfl | ⟨⟨i, _⟩, -, rfl⟩
    · exact .inl ⟨hj, id⟩
    · rw [TransBuffer.markReady_pool] at hj ⊢
      rw [Pool.complete_key] at hj
      exact .inl ⟨hj, Pool.ready_complete⟩
  | search k' allowReserved hget hpins hbackend =>
    have hg := (hrep.get k'.1 k'.2 allowReserved env.tryLocks).2
    rw [hget] at hg
    rcases hg.key_cases hj with ⟨hk, hr⟩ | ⟨-, ho, -⟩
    · exact .inl ⟨hk, fun h => hr.trans h⟩
    · cases ho
  | get k' allowReserved h r hget hrole hpins hbackend =>
    have hg := (hrep.get k'.1 k'.2 allowReserved env.tryLocks).2
    rw [hget] at hg
    rcases hg.key_cases hj with ⟨hk, hr⟩ | ⟨rfl, ho, hr, -⟩
    · exact .inl ⟨hk, fun h => hr.trans h⟩
    · simp only [Option.map_some, Option.some.injEq, Prod.mk.injEq] at ho
      rcases hrole with ⟨-, rfl⟩ | ⟨hfalse, -⟩
      · refine .inr ⟨?_, hr⟩
        rw [hpins, ← ho.1]
        exact Multiset.mem_add.mpr (.inl (Multiset.mem_singleton_self _))
      · rw [hfalse] at ho
        exact absurd ho.2 (by simp)
  | release i hpins hbackend =>
    rw [TransBuffer.release_pool] at hj ⊢
    rw [Pool.unpin_key] at hj
    exact .inl ⟨hj, fun h => Pool.unpin_ready.trans h⟩
  | submitLoad => exact .inl ⟨hj, id⟩
  | submitDump => exact .inl ⟨hj, id⟩
  | waitLoad => exact .inl ⟨hj, id⟩
  | waitDump => exact .inl ⟨hj, id⟩
  | finish => exact .inl ⟨hj, id⟩
  | abandon => exact .inl ⟨hj, id⟩

section Global

variable {n : Nat} {s s' : State n} {e : Event n}

theorem step_effect (h : s.step cfg e = some s') :
    ∃ q', s'.procs = update s.procs e.p q' ∧
      Effect cfg e.env e.act s.buf (s.procs e.p) s'.buf q' ∧ s.stored ⊆ s'.stored := by
  obtain ⟨q', hprocs, hstep⟩ := step_proc h
  exact ⟨q', hprocs, hstep.effect⟩

theorem mem_pins {p : Fin n} {x : Pin} (hx : x ∈ (s.procs p).pins) : x ∈ s.pins :=
  Multiset.mem_sum.mpr ⟨p, Finset.mem_univ p, hx⟩

theorem pins_update (s : State n) (p : Fin n) :
    ∃ rest, s.pins = (s.procs p).pins + rest ∧
      ∀ s' : State n, ∀ q', s'.procs = update s.procs p q' → s'.pins = q'.pins + rest := by
  refine ⟨∑ x ∈ Finset.univ.erase p, (s.procs x).pins, ?_, fun s' q' hs' => ?_⟩
  · exact (Finset.add_sum_erase _ (fun x => (s.procs x).pins) (Finset.mem_univ p)).symm
  · unfold State.pins
    rw [← Finset.add_sum_erase _ _ (Finset.mem_univ p), hs', update_self]
    congr 1
    refine Finset.sum_congr rfl fun x hx => ?_
    rw [update_of_ne (Finset.ne_of_mem_erase hx)]

/-- The table is well formed, and its references are the handles of all threads of all processes. -/
structure StoreInv (cfg : Config) (s : State n) : Prop where
  rep : ∃ chain, TransBuffer.RepInv cfg.buffer s.buf chain
  pinned : Pool.Pinned Role.key s.buf.pool s.pins

theorem storeInv_step (hinv : StoreInv cfg s) (h : s.step cfg e = some s') : StoreInv cfg s' := by
  obtain ⟨q', hprocs, he, -⟩ := step_effect h
  obtain ⟨rest, hrest, hrest'⟩ := pins_update s e.p
  have hpin := hinv.pinned
  rw [hrest] at hpin
  obtain ⟨hrep, hpin', -⟩ := he.pinned hinv.rep hpin
  refine ⟨hrep, ?_⟩
  rw [hrest' s' q' hprocs]
  exact hpin'

theorem keeps_step (hinv : StoreInv cfg s) (h : s.step cfg e = some s') :
    s.buf.pool.Keeps s'.buf.pool := by
  obtain ⟨q', -, he, -⟩ := step_effect h
  obtain ⟨rest, hrest, -⟩ := pins_update s e.p
  have hpin := hinv.pinned
  rw [hrest] at hpin
  exact (he.pinned hinv.rep hpin).2.2

theorem storeInv_init (h : (storeMachine cfg n).init s) : StoreInv cfg s := by
  obtain ⟨hbuf, hprocs⟩ := h
  have hpins : s.pins = 0 := Finset.sum_eq_zero fun p _ => by rw [hprocs p]; rfl
  refine ⟨⟨_, hbuf ▸ TransBuffer.repInv_setup⟩, ?_⟩
  rw [hbuf, hpins]
  exact ⟨fun i => rfl, fun x hx => absurd hx (Multiset.notMem_zero x)⟩

/-- **References are counted** in every state the store can reach. -/
theorem storeInv_reach {C : State n → Event n → Prop} (h : (storeMachine cfg n).Reach C s) :
    StoreInv cfg s :=
  h.inv (fun _ => storeInv_init) fun _ _ _ hs _ hstep => storeInv_step hs hstep

end Global

end UnifiedCache.Cache
