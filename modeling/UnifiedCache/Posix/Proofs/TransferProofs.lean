import UnifiedCache.Posix.Transfer
import UnifiedCache.Posix.Proofs.DumpProofs

/-!
# Proofs: what an OK from `Wait` means

While a task is clean, that is not in the failure set and not yet checked by its `Wait`, its latch
counts at least the units that have not called `Done`, and none of its units has failed. So when
`Wait` returns OK every unit of the task has finished successfully (`TaskInv.ok`). What a successful
unit has transferred depends on the engine, and whether its block is archived on the commit.
-/

open Function Lib

namespace UnifiedCache.Posix

variable {cfg : DumpConfig}

/-! ## The steps of a dump unit -/

section Units

variable {env : DumpEnv} {s s' : DumpState} {u u' : DumpUnit} {b : BlockId}

/-- The unit has failed, and its task is in the failure set. -/
def DumpPc.failed : DumpPc → Bool
  | .done ok | .ioClose ok | .ioCommit ok => !ok
  | .failClose | .failCommit => true
  | .check | .open | .write _ | .close _ | .commit _ | .remove _ | .insert | .openInsert | .contains
  | .submit | .submitInsert | .inFlight | .ioInsert => false

/-- A successful unit has committed its block, or tried to. -/
def DumpPc.ends : DumpPc → Bool
  | .done ok | .remove ok => ok
  | _ => false

/-- The block is archived, or a commit that is going to archive it is in the queue. -/
def DumpState.Committed (s : DumpState) (b : BlockId) : Prop :=
  s.Archived b ∨ ∃ task ∈ s.commits, task.id = b ∧ task.remove = false

/-- What a psync unit that has succeeded has written. -/
def DumpUnit.Full (cfg : DumpConfig) (u : DumpUnit) : Prop :=
  cfg.engine u.proc = .psync → u.pc.succeeded = true → u.written = cfg.shardSize

/-- What a step of dump unit `u`, which becomes `u'`, does to the other units, the failure sets and
the commits. -/
structure UnitMoves (cfg : DumpConfig) (env : DumpEnv) (s s' : DumpState) (u u' : DumpUnit) :
    Prop where
  units : s'.units = s.units.set u.id u'
  id : u'.id = u.id
  task : u'.task = u.task
  proc : u'.proc = u.proc
  shard : u'.shard = u.shard
  nextId : s'.nextId = s.nextId
  commits : s.commits ⊆ s'.commits
  failureSet : s.failureSet ⊆ s'.failureSet
  archived : ∀ b, s.Archived b → s'.Archived b
  running : ∀ ok, u.pc ≠ .done ok
  failed : u'.pc.failed = true → u.pc.failed = true ∨ u.task ∈ s'.failureSet
  ends : cfg.Last u.shard → u'.pc.ends = true → u.pc.ends = true ∨ s'.Committed u.shard.owner ∨
    u.task ∈ s'.failureSet ∨ u.pc = .commit true ∧ s.archive u.shard.owner env.ok = none
  full : u.Full cfg → u'.Full cfg

theorem UnitMoves.of_pc {pc : DumpPc} (hs : s'.units = s.units.set u.id { u with pc := pc })
    (hfs : s'.fs = s.fs) (hnext : s'.nextId = s.nextId) (hcommits : s.commits ⊆ s'.commits)
    (hsub : s.failureSet ⊆ s'.failureSet) (hrun : ∀ ok, u.pc ≠ .done ok)
    (hfailed : pc.failed = true → u.pc.failed = true ∨ u.task ∈ s'.failureSet)
    (hends : cfg.Last u.shard → pc.ends = true → u.pc.ends = true ∨ s'.Committed u.shard.owner ∨
      u.task ∈ s'.failureSet ∨ u.pc = .commit true ∧ s.archive u.shard.owner env.ok = none)
    (hfull : cfg.engine u.proc = .psync → pc.succeeded = true →
      u.pc.succeeded = true ∨ u.written = cfg.shardSize) :
    ∃ u', UnitMoves cfg env s s' u u' := by
  refine ⟨_, hs, rfl, rfl, rfl, rfl, hnext, hcommits, hsub, ?_, hrun, hfailed, hends, ?_⟩
  · intro b hb
    unfold DumpState.Archived
    rw [hfs]
    exact hb
  · intro hf heng hsucc
    rcases hfull heng hsucc with hold | hwritten
    · exact hf heng hold
    · exact hwritten

theorem archived_open (h : s.Archived b) {pc : DumpPc} : (s.openFile u pc).Archived b := by
  show ((s.fs.openCreate (u.shard.owner, true)).2.dir (b, false)).isSome
  rw [FileSystem.dir_openCreate_of_ne (by simp)]
  exact h

theorem archived_remove (h : s.Archived b) (b' : BlockId) (ok : Bool) :
    (s.removeActivated b' ok).Archived b := by
  unfold DumpState.removeActivated
  split_ifs
  · show (update s.fs.dir (b', true) none (b, false)).isSome
    rw [update_of_ne (by simp)]
    exact h
  · exact h

theorem archive_eq_some {b' : BlockId} {ok : Bool} (h : s.archive b' ok = some s') :
    s'.Archived b' ∧ (∀ b, s.Archived b → s'.Archived b) ∧
      ∃ fs, s' = { s with fs := fs } := by
  unfold DumpState.archive at h
  split_ifs at h
  obtain ⟨fs, hren, rfl⟩ := Option.map_eq_some_iff.mp h
  obtain ⟨n, -, hnew, -, hother, -⟩ := FileSystem.dir_rename (by simp) hren
  have hself : (fs.dir (b', false)).isSome := by rw [hnew]; rfl
  refine ⟨hself, fun b hb => ?_, fs, rfl⟩
  by_cases hbb : b = b'
  · rw [hbb]
    exact hself
  · show (fs.dir (b, false)).isSome
    rw [hother _ (by simp) (by simp [hbb])]
    exact hb

theorem written_of_last {k : Nat} (hu : u.Ok cfg) (hw : u.written = k * cfg.tensorSize)
    (haddr : u.shard.addrs[k]? = none) : u.written = cfg.shardSize := by
  refine Nat.le_antisymm hu.written ?_
  rw [hw, ← hu.shard.2]
  exact Nat.mul_le_mul_right _ (List.getElem?_eq_none_iff.mp haddr)

theorem UnitMoves.of_quiet (hs : s'.units = s.units.set u.id u') (hid : u'.id = u.id)
    (htask : u'.task = u.task) (hproc : u'.proc = u.proc) (hshard : u'.shard = u.shard)
    (hnext : s'.nextId = s.nextId) (hcommits : s.commits ⊆ s'.commits)
    (hsub : s.failureSet ⊆ s'.failureSet) (harchived : ∀ b, s.Archived b → s'.Archived b)
    (hrun : ∀ ok, u.pc ≠ .done ok) (hfailed : u'.pc.failed = false) (hends : u'.pc.ends = false)
    (hsucceeded : u'.pc.succeeded = false) : UnitMoves cfg env s s' u u' := by
  refine ⟨hs, hid, htask, hproc, hshard, hnext, hcommits, hsub, harchived, hrun, ?_, ?_, ?_⟩
  · intro h
    rw [hfailed] at h
    cases h
  · intro _ h
    rw [hends] at h
    cases h
  · intro _ _ h
    rw [hsucceeded] at h
    cases h

theorem UnitMoves.of_failed {pc : DumpPc} (hs : s'.units = s.units.set u.id { u with pc := pc })
    (hfs : s'.fs = s.fs) (hnext : s'.nextId = s.nextId) (hcommits : s.commits ⊆ s'.commits)
    (hsub : s.failureSet ⊆ s'.failureSet) (hrun : ∀ ok, u.pc ≠ .done ok)
    (hfailed : u.pc.failed = true ∨ u.task ∈ s'.failureSet) (hends : pc.ends = false)
    (hsucceeded : pc.succeeded = false) : ∃ u', UnitMoves cfg env s s' u u' := by
  refine UnitMoves.of_pc hs hfs hnext hcommits hsub hrun (fun _ => hfailed) ?_ ?_
  · intro _ h
    rw [hends] at h
    cases h
  · intro _ h
    rw [hsucceeded] at h
    cases h

theorem stepUnit_running (h : stepUnit cfg env u s = some s') (ok : Bool) : u.pc ≠ .done ok := by
  rintro hpc
  rw [stepUnit, hpc] at h
  cases h

theorem stepUnit_moves (hu : u.Ok cfg) (h : stepUnit cfg env u s = some s') :
    ∃ u', UnitMoves cfg env s s' u u' := by
  rcases u with ⟨id, proc, owner, shard, pc, file, written, before⟩
  have hpc := hu.pc
  have hrun := stepUnit_running h
  have hcommits := List.Subset.refl s.commits
  have hinsert : s.failureSet ⊆ insert (proc, owner) s.failureSet := Finset.subset_insert _ _
  have hfalse : ∀ {P : Prop}, false = true → P := fun h => absurd h Bool.false_ne_true
  have hself : (proc, owner) ∈ insert (proc, owner) s.failureSet := Finset.mem_insert_self _ _
  cases pc with
  | check | contains =>
    simp only [stepUnit] at h
    split_ifs at h with hf <;> cases h
    · exact UnitMoves.of_failed rfl rfl rfl hcommits subset_rfl hrun (.inr hf) rfl rfl
    · exact ⟨_, .of_quiet rfl rfl rfl rfl rfl rfl hcommits subset_rfl (fun _ h => h) hrun rfl rfl rfl⟩
  | «open» =>
    simp only [stepUnit] at h
    split at h <;> split_ifs at h <;> cases h
    · exact ⟨_, .of_quiet rfl rfl rfl rfl rfl rfl hcommits subset_rfl (fun _ h => archived_open h) hrun
        rfl rfl rfl⟩
    · exact ⟨_, .of_quiet rfl rfl rfl rfl rfl rfl hcommits subset_rfl (fun _ h => h) hrun rfl rfl rfl⟩
    · exact ⟨_, .of_quiet rfl rfl rfl rfl rfl rfl hcommits subset_rfl (fun _ h => archived_open h) hrun
        rfl rfl rfl⟩
    · exact ⟨_, .of_quiet rfl rfl rfl rfl rfl rfl hcommits subset_rfl (fun _ h => h) hrun rfl rfl rfl⟩
  | write k =>
    obtain ⟨-, hwritten⟩ := hpc
    simp only [stepUnit] at h
    split at h
    · split_ifs at h <;> cases h <;>
        exact ⟨_, .of_quiet rfl rfl rfl rfl rfl rfl hcommits subset_rfl (fun _ h => h) hrun rfl rfl rfl⟩
    · next haddr =>
      cases h
      exact UnitMoves.of_pc rfl rfl rfl hcommits subset_rfl hrun hfalse (fun _ => hfalse)
        fun _ _ => .inr (written_of_last hu hwritten haddr)
    · cases h
  | close ok =>
    simp only [stepUnit] at h
    split_ifs at h with hlast hok <;> cases h
    · exact UnitMoves.of_pc rfl rfl rfl hcommits subset_rfl hrun hfalse (fun _ => hfalse)
        fun _ h => .inl h
    · exact UnitMoves.of_pc rfl rfl rfl hcommits subset_rfl hrun hfalse (fun h => absurd h hlast)
        fun _ _ => .inl hok
    · exact ⟨_, .of_quiet rfl rfl rfl rfl rfl rfl hcommits subset_rfl (fun _ h => h) hrun rfl rfl rfl⟩
  | commit ok =>
    simp only [stepUnit] at h
    split_ifs at h with hok
    · subst hok
      split at h
      · next s₁ harch =>
        cases h
        obtain ⟨harchived, hothers, fs, rfl⟩ := archive_eq_some harch
        exact ⟨_, rfl, rfl, rfl, rfl, rfl, rfl, hcommits, subset_rfl, hothers, hrun, hfalse,
          fun _ _ => .inr (.inl (.inl harchived)), fun hf heng _ => hf heng rfl⟩
      · next harch =>
        cases h
        exact UnitMoves.of_pc rfl rfl rfl hcommits subset_rfl hrun hfalse
          (fun _ _ => .inr (.inr (.inr ⟨rfl, harch⟩))) fun _ _ => .inl rfl
    · cases h
      exact ⟨_, .of_quiet rfl rfl rfl rfl rfl rfl hcommits subset_rfl (fun _ h => h) hrun rfl rfl rfl⟩
  | remove ok =>
    have hframe : ∀ b, s.Archived b → (s.removeActivated shard.owner env.ok).Archived b :=
      fun b hb => archived_remove hb _ _
    obtain ⟨fs, hfs⟩ : ∃ fs, s.removeActivated shard.owner env.ok = { s with fs := fs } := by
      unfold DumpState.removeActivated
      split_ifs
      · exact ⟨_, rfl⟩
      · exact ⟨s.fs, rfl⟩
    rw [hfs] at hframe
    simp only [stepUnit, hfs] at h
    split_ifs at h with hok <;> cases h
    · subst hok
      exact ⟨_, rfl, rfl, rfl, rfl, rfl, rfl, hcommits, subset_rfl, hframe, hrun, hfalse,
        fun _ _ => .inl rfl, fun hf heng _ => hf heng rfl⟩
    · exact ⟨_, .of_quiet rfl rfl rfl rfl rfl rfl hcommits subset_rfl hframe hrun rfl rfl rfl⟩
  | insert | submitInsert | ioInsert =>
    cases h
    exact UnitMoves.of_failed rfl rfl rfl hcommits hinsert hrun (.inr hself) rfl rfl
  | openInsert =>
    cases h
    exact ⟨_, .of_quiet rfl rfl rfl rfl rfl rfl hcommits hinsert (fun _ h => h) hrun rfl rfl rfl⟩
  | submit =>
    simp only [stepUnit] at h
    split_ifs at h <;> cases h <;>
      exact ⟨_, .of_quiet rfl rfl rfl rfl rfl rfl hcommits subset_rfl (fun _ h => h) hrun rfl rfl rfl⟩
  | failClose =>
    simp only [stepUnit] at h
    split_ifs at h <;> cases h <;>
      exact UnitMoves.of_failed rfl rfl rfl hcommits subset_rfl hrun (.inl rfl) rfl rfl
  | failCommit =>
    cases h
    exact UnitMoves.of_failed rfl rfl rfl (List.subset_append_left _ _) subset_rfl hrun (.inl rfl)
      rfl rfl
  | inFlight =>
    have heng : cfg.engine proc = .aio := hpc
    simp only [stepUnit] at h
    split at h
    · cases h
    · split at h <;> cases h
      · exact ⟨_, .of_quiet rfl rfl rfl rfl rfl rfl hcommits subset_rfl (fun _ h => h) hrun rfl rfl rfl⟩
      · refine ⟨_, rfl, rfl, rfl, rfl, rfl, rfl, hcommits, subset_rfl, fun _ h => h, hrun, hfalse,
          fun _ => hfalse, fun _ hpsync => ?_⟩
        rw [show cfg.engine proc = .psync from hpsync] at heng
        cases heng
      · exact ⟨_, .of_quiet rfl rfl rfl rfl rfl rfl hcommits subset_rfl (fun _ h => h) hrun rfl rfl rfl⟩
  | ioClose ok =>
    simp only [stepUnit] at h
    split_ifs at h with hlast <;> cases h
    · exact UnitMoves.of_pc rfl rfl rfl hcommits subset_rfl hrun .inl (fun _ => hfalse) fun _ => .inl
    · exact UnitMoves.of_pc rfl rfl rfl hcommits subset_rfl hrun .inl (fun h => absurd h hlast)
        fun _ => .inl
  | ioCommit ok =>
    cases h
    refine UnitMoves.of_pc rfl rfl rfl (List.subset_append_left _ _) subset_rfl hrun .inl
      (fun _ _ => ?_) fun _ => .inl
    by_cases hf : (proc, owner) ∈ s.failureSet
    · exact .inr (.inr (.inl hf))
    · refine .inr (.inl (.inr ⟨_, List.mem_append_right _ (List.mem_singleton_self _), rfl, ?_⟩))
      simp [hf]
  | done ok => cases h

end Units

/-! ## The steps of a load unit -/

section Loads

variable {env : DumpEnv} {failureSet : Finset TaskRef} {u u' : LoadUnit} {failed : Bool}

/-- What is known where a load unit stands. -/
def LoadUnit.PcOk (cfg : DumpConfig) (u : LoadUnit) : Prop :=
  match u.pc with
  | .check | .open => u.got = 0
  | .read k => u.got = k * cfg.tensorSize
  | .openInsert | .contains | .submit | .inFlight => cfg.engine u.proc = .aio
  | .done true => cfg.engine u.proc = .psync → u.got = cfg.shardSize
  | .insert | .submitInsert | .ioInsert | .done false => True

/-- A load unit reads no more than its shard. -/
structure LoadUnit.Ok (cfg : DumpConfig) (u : LoadUnit) : Prop where
  shard : cfg.ShardOk u.shard
  got : u.got ≤ cfg.shardSize
  pc : u.PcOk cfg

/-- What a step of load unit `u`, which becomes `u'`, does. -/
structure LoadMoves (cfg : DumpConfig) (failureSet : Finset TaskRef) (u u' : LoadUnit)
    (failed : Bool) : Prop where
  id : u'.id = u.id
  task : u'.task = u.task
  running : ∀ ok, u.pc ≠ .done ok
  failed : u'.pc = .done false → failed = true ∨ u.task ∈ failureSet
  ok : u'.Ok cfg

theorem stepLoad_moves (hu : u.Ok cfg) (h : stepLoad cfg env failureSet u = some (u', failed)) :
    LoadMoves cfg failureSet u u' failed := by
  rcases u with ⟨id, proc, owner, shard, pc, opened, got⟩
  obtain ⟨hshard, hgot, hpc⟩ := hu
  simp only at hshard hgot
  cases pc with
  | check | contains =>
    simp only [stepLoad] at h
    split_ifs at h with hf <;> cases h
    · exact ⟨rfl, rfl, nofun, fun _ => .inr hf, hshard, hgot, trivial⟩
    · exact ⟨rfl, rfl, nofun, nofun, hshard, hgot, hpc⟩
  | «open» =>
    replace hpc : got = 0 := hpc
    simp only [stepLoad] at h
    split at h
    · split_ifs at h <;> cases h
      · refine ⟨rfl, rfl, nofun, nofun, hshard, hgot, ?_⟩
        show got = 0 * cfg.tensorSize
        rw [hpc, Nat.zero_mul]
      · exact ⟨rfl, rfl, nofun, nofun, hshard, hgot, trivial⟩
    · next heng =>
      split_ifs at h <;> cases h
      · exact ⟨rfl, rfl, nofun, nofun, hshard, hgot, heng⟩
      · exact ⟨rfl, rfl, nofun, nofun, hshard, hgot, heng⟩
  | read k =>
    replace hpc : got = k * cfg.tensorSize := hpc
    simp only [stepLoad] at h
    split_ifs at h with hk hbytes <;> cases h
    · have hnext : got + cfg.tensorSize = (k + 1) * cfg.tensorSize := by
        rw [hpc, Nat.add_mul, Nat.one_mul]
      refine ⟨rfl, rfl, nofun, nofun, hshard, ?_, hnext⟩
      show got + cfg.tensorSize ≤ cfg.shardSize
      rw [hnext, ← hshard.2]
      exact Nat.mul_le_mul_right _ hk
    · have hroom : got + cfg.tensorSize ≤ cfg.shardSize := by
        rw [hpc, ← hshard.2, ← Nat.succ_mul]
        exact Nat.mul_le_mul_right _ hk
      refine ⟨rfl, rfl, nofun, nofun, hshard, ?_, trivial⟩
      show got + env.bytes ≤ cfg.shardSize
      omega
    · refine ⟨rfl, rfl, nofun, nofun, hshard, hgot, fun _ => Nat.le_antisymm hgot ?_⟩
      show cfg.shardSize ≤ got
      rw [hpc, ← hshard.2]
      exact Nat.mul_le_mul_right _ (by omega)
  | insert | submitInsert | ioInsert =>
    cases h
    exact ⟨rfl, rfl, nofun, fun _ => .inl rfl, hshard, hgot, trivial⟩
  | openInsert =>
    cases h
    exact ⟨rfl, rfl, nofun, nofun, hshard, hgot, hpc⟩
  | submit =>
    simp only [stepLoad] at h
    split_ifs at h <;> cases h
    · exact ⟨rfl, rfl, nofun, nofun, hshard, hgot, hpc⟩
    · exact ⟨rfl, rfl, nofun, nofun, hshard, hgot, trivial⟩
  | inFlight =>
    replace hpc : cfg.engine proc = .aio := hpc
    have hlength : cfg.ioLength ≤ cfg.shardSize := Nat.mod_le _ _
    have hroom : got + min env.bytes (cfg.ioLength - got) ≤ cfg.shardSize := by omega
    simp only [stepLoad] at h
    split at h <;> cases h
    · exact ⟨rfl, rfl, nofun, nofun, hshard, hroom, hpc⟩
    · refine ⟨rfl, rfl, nofun, nofun, hshard, hroom, fun hpsync => ?_⟩
      rw [show cfg.engine proc = .psync from hpsync] at hpc
      cases hpc
    · exact ⟨rfl, rfl, nofun, nofun, hshard, hroom, trivial⟩
  | done ok => cases h

end Loads

/-! ## Tasks -/

variable {s s' : TransState} {t : TaskRef}

namespace TransState

/-- A unit of the task has failed. -/
def Failed (s : TransState) (t : TaskRef) : Prop :=
  (∃ u ∈ s.dump.units, u.task = t ∧ u.pc.failed = true) ∨
    ∃ u ∈ s.loads, u.task = t ∧ u.pc = .done false

/-- All units of the task have finished successfully. -/
def Succeeded (s : TransState) (t : TaskRef) : Prop :=
  (∀ u ∈ s.dump.units, u.task = t → u.pc = .done true) ∧
    ∀ u ∈ s.loads, u.task = t → u.pc = .done true

/-- How many units of the task have not called `Done`. -/
def pending (s : TransState) (t : TaskRef) : Nat :=
  s.refs.countP fun r => decide (r.task = t ∧ r ∉ s.dones)

/-- The task may still be reported OK. -/
structure Clean (s : TransState) (t : TaskRef) : Prop where
  failureSet : t ∉ s.dump.failureSet
  wait : s.wait t = .registered ∨ s.wait t = .waitFor ∨ s.wait t = .contains

end TransState

/-- The units are where their numbers say and have done what their places say. -/
structure UnitsInv (cfg : DumpConfig) (s : TransState) : Prop where
  ids : Numbered s.dump.units
  loadIds : ∀ i (u : LoadUnit), s.loads[i]? = some u → u.id = i
  unit : ∀ u ∈ s.dump.units, u.Ok cfg ∧ u.Full cfg
  load : ∀ u ∈ s.loads, u.Ok cfg

/-- What the latches, the failure sets and the waiters know about the units. -/
structure TaskInv (s : TransState) : Prop where
  fresh : ∀ r ∈ s.refs, r.task.2 < s.dump.nextId r.task.1
  known : ∀ t, s.wait t ≠ .unknown → t.2 < s.dump.nextId t.1
  expiring : ∀ r ∈ s.expiring, r ∈ s.refs
  dones : ∀ r ∈ s.dones, s.finished r = true
  /-- No unit of a clean task has failed, none is given up on, and its latch covers the units that
  have not called `Done`. -/
  failed : ∀ t, s.Clean t → ¬s.Failed t
  idle : ∀ t, s.Clean t → ∀ r ∈ s.expiring, r.task ≠ t
  pending : ∀ t, s.Clean t → s.pending t ≤ s.latch t
  contains : ∀ t, s.wait t = .contains → s.latch t = 0
  remove : ∀ t, s.wait t ≠ .remove .ok
  ok : ∀ t, s.wait t = .returned .ok → s.Succeeded t

variable {r : UnitRef}

theorem mem_refs : r ∈ s.refs ↔
    (∃ u ∈ s.dump.units, r = ⟨.dump, u.id, u.task⟩) ∨ ∃ u ∈ s.loads, r = ⟨.load, u.id, u.task⟩ := by
  simp only [TransState.refs, List.mem_append, List.mem_map, eq_comm]

theorem TaskInv.succeeded (hu : UnitsInv cfg s) (hi : TaskInv s) (hclean : s.Clean t)
    (hlatch : s.latch t = 0) : s.Succeeded t := by
  have hzero : s.pending t = 0 := by
    have := hi.pending t hclean
    omega
  have hdone : ∀ r ∈ s.refs, r.task = t → s.finished r = true := by
    intro r hr hrt
    have hnot := List.countP_eq_zero.mp hzero r hr
    simp only [decide_eq_true_eq, not_and, not_not] at hnot
    exact hi.dones r (hnot hrt)
  have hfailed := hi.failed t hclean
  constructor
  · intro u humem hut
    obtain ⟨i, hget⟩ := List.getElem?_of_mem humem
    obtain rfl := hu.ids i u hget
    have hfin := hdone ⟨.dump, u.id, u.task⟩ (mem_refs.mpr (.inl ⟨u, humem, rfl⟩)) hut
    simp only [TransState.finished, hget, Option.any_some, Bool.and_eq_true, Bool.or_eq_true,
      decide_eq_true_eq] at hfin
    rcases hfin.2 with hpc | hpc
    · exact hpc
    · exact absurd (.inl ⟨u, humem, hut, by rw [hpc]; rfl⟩) hfailed
  · intro u humem hut
    obtain ⟨i, hget⟩ := List.getElem?_of_mem humem
    obtain rfl := hu.loadIds i u hget
    have hfin := hdone ⟨.load, u.id, u.task⟩ (mem_refs.mpr (.inr ⟨u, humem, rfl⟩)) hut
    simp only [TransState.finished, hget, Option.any_some, Bool.and_eq_true, Bool.or_eq_true,
      decide_eq_true_eq] at hfin
    rcases hfin.2 with hpc | hpc
    · exact hpc
    · exact absurd (.inr ⟨u, humem, hut, hpc⟩) hfailed

/-! ## Steps of units -/

/-- A step that concerns the units and the files: the latches and the waiters stay, tasks only get
into the failure set, and a unit that fails has its task there. -/
structure Moves (s s' : TransState) : Prop where
  refs : s'.refs = s.refs
  latch : s'.latch = s.latch
  wait : s'.wait = s.wait
  dones : s'.dones = s.dones
  expiring : s'.expiring = s.expiring
  nextId : s'.dump.nextId = s.dump.nextId
  failureSet : s.dump.failureSet ⊆ s'.dump.failureSet
  failed : ∀ t, s'.Failed t → s.Failed t ∨ t ∈ s'.dump.failureSet
  finished : ∀ r, s.finished r = true → s'.finished r = true
  succeeded : ∀ t, s.Succeeded t → s'.Succeeded t

theorem Moves.clean (h : Moves s s') (hclean : s'.Clean t) : s.Clean t := by
  refine ⟨fun hf => hclean.failureSet (h.failureSet hf), ?_⟩
  rw [← h.wait]
  exact hclean.wait

theorem TaskInv.moves (hi : TaskInv s) (h : Moves s s') : TaskInv s' where
  fresh := by
    rw [h.refs, h.nextId]
    exact hi.fresh
  known := by
    rw [h.wait, h.nextId]
    exact hi.known
  expiring := by
    rw [h.expiring, h.refs]
    exact hi.expiring
  dones := by
    intro r hr
    rw [h.dones] at hr
    exact h.finished r (hi.dones r hr)
  failed := by
    intro t hclean hfailed
    rcases h.failed t hfailed with hold | hf
    · exact hi.failed t (h.clean hclean) hold
    · exact hclean.failureSet hf
  idle := by
    intro t hclean
    rw [h.expiring]
    exact hi.idle t (h.clean hclean)
  pending := by
    intro t hclean
    have hold := hi.pending t (h.clean hclean)
    unfold TransState.pending at hold ⊢
    rw [h.refs, h.dones, h.latch]
    exact hold
  contains := by
    rw [h.wait, h.latch]
    exact hi.contains
  remove := by
    rw [h.wait]
    exact hi.remove
  ok := by
    intro t ht
    rw [h.wait] at ht
    exact h.succeeded t (hi.ok t ht)

theorem map_set_eq {α β : Type*} {l : List α} {i : Nat} {a a' : α} {f : α → β} (ha : l[i]? = some a)
    (hf : f a' = f a) : (l.set i a').map f = l.map f := by
  refine List.ext_getElem? fun j => ?_
  rw [List.getElem?_map, List.getElem?_map, List.getElem?_set]
  split_ifs with hij hlt
  · subst hij
    rw [ha]
    exact congrArg some hf
  · subst hij
    rw [List.getElem?_eq_none (by omega)]
  · rfl

theorem any_set {α : Type*} {l : List α} {i j : Nat} {a a' : α} {p : α → Bool} (ha : l[i]? = some a)
    (hp : p a = false) (h : l[j]?.any p = true) : (l.set i a')[j]?.any p = true := by
  rw [List.getElem?_set]
  split_ifs with hij hlt
  · subst hij
    rw [ha, Option.any_some, hp] at h
    cases h
  · subst hij
    rw [List.getElem?_eq_none (by omega)] at h
    exact h
  · exact h

variable {d : DumpState}

theorem moves_dump {env : DumpEnv} {u : DumpUnit} (hi : UnitsInv cfg s)
    (hu : s.dump.units[u.id]? = some u) (h : stepUnit cfg env u s.dump = some d) :
    UnitsInv cfg { s with dump := d } ∧ Moves s { s with dump := d } := by
  have hmem := List.mem_of_getElem? hu
  obtain ⟨hok, hfull⟩ := hi.unit u hmem
  obtain ⟨u', hm⟩ := stepUnit_moves hok h
  obtain ⟨u'', hunits, -, hok', -⟩ := stepUnit_effect hok h
  have hset : ∀ w, w ∈ d.units ↔ w = u' ∨ w ∈ s.dump.units ∧ w.id ≠ u.id := by
    intro w
    rw [hm.units]
    exact mem_set_unit hi.ids hu
  have hsame : u'' = u' := by
    obtain ⟨hlt, -⟩ := List.getElem?_eq_some_iff.mp hu
    have heq := congrArg (fun l => l[u.id]?) (hunits.symm.trans hm.units)
    simpa [hlt] using heq
  subst hsame
  refine ⟨⟨?_, hi.loadIds, ?_, hi.load⟩, ⟨?_, rfl, rfl, rfl, rfl, hm.nextId, hm.failureSet, ?_, ?_, ?_⟩⟩
  · show Numbered d.units
    rw [hm.units]
    exact hi.ids.set hm.id
  · intro w hw
    rcases (hset w).mp hw with rfl | ⟨hw, -⟩
    · exact ⟨hok', hm.full hfull⟩
    · exact hi.unit w hw
  · show d.units.map _ ++ _ = s.dump.units.map _ ++ _
    rw [hm.units, map_set_eq hu]
    rw [hm.id, hm.task]
  · rintro t (⟨w, hw, hwt, hwpc⟩ | hload)
    · rcases (hset w).mp hw with rfl | ⟨hw, -⟩
      · rw [hm.task] at hwt
        rcases hm.failed hwpc with hold | hf
        · exact .inl (.inl ⟨u, hmem, hwt, hold⟩)
        · rw [← hwt]
          exact .inr hf
      · exact .inl (.inl ⟨w, hw, hwt, hwpc⟩)
    · exact .inl (.inr hload)
  · rintro ⟨type, id, task⟩ hr
    cases type with
    | load => exact hr
    | dump =>
      simp only [TransState.finished] at hr ⊢
      rw [hm.units]
      exact any_set hu (by simp [hm.running]) hr
  · rintro t ⟨hdump, hload⟩
    refine ⟨fun w hw hwt => ?_, hload⟩
    rcases (hset w).mp hw with rfl | ⟨hw, -⟩
    · rw [hm.task] at hwt
      exact absurd (hdump u hmem hwt) (hm.running _)
    · exact hdump w hw hwt

theorem mem_set_load {l : List LoadUnit} (hids : ∀ i (u : LoadUnit), l[i]? = some u → u.id = i)
    {u u' w : LoadUnit} (hw : w ∈ l.set u.id u') : w = u' ∨ w ∈ l ∧ w.id ≠ u.id := by
  obtain ⟨i, hi⟩ := List.getElem?_of_mem hw
  rw [List.getElem?_set] at hi
  split_ifs at hi with hui hlt
  · exact .inl (Option.some.inj hi).symm
  · refine .inr ⟨List.mem_of_getElem? hi, ?_⟩
    rw [hids i w hi]
    exact Ne.symm hui

theorem moves_load {env : DumpEnv} {id : Nat} (hi : UnitsInv cfg s)
    (h : s.loadStep cfg id env = some s') : UnitsInv cfg s' ∧ Moves s s' := by
  obtain ⟨u, hu, hmap⟩ := Option.bind_eq_some_iff.mp h
  obtain ⟨⟨u', failed⟩, hstep, hs'⟩ := Option.map_eq_some_iff.mp hmap
  obtain rfl := hi.loadIds id u hu
  have hmem := List.mem_of_getElem? hu
  have hm := stepLoad_moves (hi.load u hmem) hstep
  -- Whether the task is put into the failure set makes no difference to the rest.
  obtain ⟨f, hs', hsub, hfail⟩ : ∃ f, s' = { s with
      loads := s.loads.set u.id u', dump := { s.dump with failureSet := f } } ∧
      s.dump.failureSet ⊆ f ∧ (failed = true → u.task ∈ f) := by
    simp only at hs'
    split_ifs at hs' with hf
    · exact ⟨_, hs'.symm, Finset.subset_insert _ _, fun _ => Finset.mem_insert_self _ _⟩
    · exact ⟨_, hs'.symm, subset_rfl, fun h => absurd h hf⟩
  subst hs'
  refine ⟨⟨hi.ids, ?_, hi.unit, ?_⟩, ⟨?_, rfl, rfl, rfl, rfl, rfl, hsub, ?_, ?_, ?_⟩⟩
  · intro i w hw
    replace hw : (s.loads.set u.id u')[i]? = some w := hw
    rw [List.getElem?_set] at hw
    split_ifs at hw with hui hlt
    · cases hw
      rw [hm.id, hui]
    · exact hi.loadIds i w hw
  · intro w hw
    rcases mem_set_load hi.loadIds hw with rfl | ⟨hw, -⟩
    · exact hm.ok
    · exact hi.load w hw
  · show _ ++ (s.loads.set u.id u').map _ = _ ++ s.loads.map _
    rw [map_set_eq hu]
    rw [hm.id, hm.task]
  · rintro t (hdump | ⟨w, hw, hwt, hwpc⟩)
    · exact .inl (.inl hdump)
    · rcases mem_set_load hi.loadIds hw with rfl | ⟨hw, -⟩
      · rw [hm.task] at hwt
        subst hwt
        rcases hm.failed hwpc with hf | hf
        · exact .inr (hfail hf)
        · exact .inr (hsub hf)
      · exact .inl (.inr ⟨w, hw, hwt, hwpc⟩)
  · rintro ⟨type, id, task⟩ hr
    cases type with
    | dump => exact hr
    | load =>
      simp only [TransState.finished] at hr ⊢
      exact any_set hu (by simp [hm.running]) hr
  · rintro t ⟨hdump, hload⟩
    refine ⟨hdump, fun w hw hwt => ?_⟩
    rcases mem_set_load hi.loadIds hw with rfl | ⟨hw, -⟩
    · rw [hm.task] at hwt
      exact absurd (hload u hmem hwt) (hm.running _)
    · exact hload w hw hwt

theorem stepCommit_frame {env : DumpEnv} {j : Nat} {d' : DumpState}
    (h : stepCommit env j d = some d') :
    ∃ fs commits, d' = { d with fs := fs, commits := commits } := by
  unfold stepCommit at h
  split at h
  · cases h
  · dsimp only at h
    split_ifs at h
    · cases h
      unfold DumpState.removeActivated
      split_ifs <;> exact ⟨_, _, rfl⟩
    · split at h
      · next harch =>
        cases h
        obtain ⟨-, -, fs, rfl⟩ := archive_eq_some harch
        exact ⟨_, _, rfl⟩
      · cases h
        exact ⟨_, _, rfl⟩

/-! ## Submitting -/

variable {desc : List Shard}

theorem mem_loadUnits {p owner id : Nat} {u : LoadUnit} (h : u ∈ loadUnits cfg p owner id desc) :
    u.shard ∈ desc ∧ u.task = (p, owner) ∧ u.got = 0 ∧ u.pc = (cfg.engine p).startLoad := by
  obtain ⟨⟨shard, i⟩, hmem, rfl⟩ := List.mem_map.mp h
  exact ⟨List.fst_mem_of_mem_zipIdx hmem, rfl, rfl, rfl⟩

theorem task_of_mem_dumpUnits {p owner id : Nat} {u : DumpUnit}
    (h : u ∈ dumpUnits cfg p owner id desc) : u.task = (p, owner) := by
  obtain ⟨⟨shard, i⟩, -, rfl⟩ := List.mem_map.mp h
  rfl

/-- A new task of `n` units. -/
structure Submits (s s' : TransState) (t : TaskRef) (n : Nat) : Prop where
  owner : t.2 = s.dump.nextId t.1
  nextId : s'.dump.nextId = update s.dump.nextId t.1 (t.2 + 1)
  failureSet : s'.dump.failureSet = s.dump.failureSet
  latch : s'.latch = update s.latch t n
  wait : s'.wait = update s.wait t .registered
  dones : s'.dones = s.dones
  expiring : s'.expiring = s.expiring
  refs : ∃ new : List UnitRef, s'.refs.Perm (s.refs ++ new) ∧ new.length = n ∧ ∀ r ∈ new, r.task = t
  failed : ∀ t, s'.Failed t → s.Failed t
  finished : ∀ r, s.finished r = true → s'.finished r = true
  succeeded : ∀ t', t' ≠ t → s.Succeeded t' → s'.Succeeded t'

theorem Submits.nextId_le {n : Nat} (h : Submits s s' t n) (p : Nat) :
    s.dump.nextId p ≤ s'.dump.nextId p := by
  rw [h.nextId]
  by_cases hp : p = t.1
  · subst hp
    rw [update_self, h.owner]
    exact Nat.le_succ _
  · rw [update_of_ne hp]

theorem TaskInv.ne_task {n : Nat} (hi : TaskInv s) (h : Submits s s' t n) (hr : r ∈ s.refs) :
    r.task ≠ t := by
  rintro rfl
  have := hi.fresh r hr
  rw [← h.owner] at this
  exact Nat.lt_irrefl _ this

theorem Submits.clean {n : Nat} (h : Submits s s' t n) {t' : TaskRef} (ht : t' ≠ t)
    (hclean : s'.Clean t') : s.Clean t' := by
  obtain ⟨hf, hw⟩ := hclean
  rw [h.failureSet] at hf
  rw [h.wait, update_of_ne ht] at hw
  exact ⟨hf, hw⟩

theorem TaskInv.submit {n : Nat} (hi : TaskInv s) (h : Submits s s' t n) : TaskInv s' := by
  obtain ⟨new, hperm, hlength, hnew⟩ := h.refs
  have hnext : t.2 < s'.dump.nextId t.1 := by
    rw [h.nextId, update_self]
    exact Nat.lt_succ_self _
  refine ⟨?_, ?_, ?_, ?_, ?_, ?_, ?_, ?_, ?_, ?_⟩
  · intro r hr
    rcases List.mem_append.mp (hperm.mem_iff.mp hr) with hold | hr
    · exact Nat.lt_of_lt_of_le (hi.fresh r hold) (h.nextId_le _)
    · rw [hnew r hr]
      exact hnext
  · intro t' ht'
    by_cases hteq : t' = t
    · rw [hteq]
      exact hnext
    · rw [h.wait, update_of_ne hteq] at ht'
      exact Nat.lt_of_lt_of_le (hi.known t' ht') (h.nextId_le _)
  · intro r hr
    rw [h.expiring] at hr
    exact hperm.mem_iff.mpr (List.mem_append_left _ (hi.expiring r hr))
  · intro r hr
    rw [h.dones] at hr
    exact h.finished r (hi.dones r hr)
  · intro t' hclean hfailed
    have hold := h.failed t' hfailed
    by_cases hteq : t' = t
    · subst hteq
      rcases hold with ⟨u, hu, hut, -⟩ | ⟨u, hu, hut, -⟩
      · exact hi.ne_task h (mem_refs.mpr (.inl ⟨u, hu, rfl⟩)) hut
      · exact hi.ne_task h (mem_refs.mpr (.inr ⟨u, hu, rfl⟩)) hut
    · exact hi.failed t' (h.clean hteq hclean) hold
  · intro t' hclean r hr
    rw [h.expiring] at hr
    by_cases hteq : t' = t
    · rw [hteq]
      exact hi.ne_task h (hi.expiring r hr)
    · exact hi.idle t' (h.clean hteq hclean) r hr
  · intro t' hclean
    unfold TransState.pending
    rw [hperm.countP_eq, List.countP_append, h.dones, h.latch]
    by_cases hteq : t' = t
    · subst hteq
      have hzero : s.refs.countP (fun r => decide (r.task = t' ∧ r ∉ s.dones)) = 0 := by
        refine List.countP_eq_zero.mpr fun r hr => ?_
        simp [hi.ne_task h hr]
      rw [hzero, update_self, ← hlength, Nat.zero_add]
      exact List.countP_le_length
    · have hzero : new.countP (fun r => decide (r.task = t' ∧ r ∉ s.dones)) = 0 := by
        refine List.countP_eq_zero.mpr fun r hr => ?_
        simp [hnew r hr, Ne.symm hteq]
      rw [hzero, update_of_ne hteq]
      exact hi.pending t' (h.clean hteq hclean)
  · intro t' ht'
    rw [h.wait] at ht'
    by_cases hteq : t' = t
    · rw [hteq, update_self] at ht'
      cases ht'
    · rw [update_of_ne hteq] at ht'
      rw [h.latch, update_of_ne hteq]
      exact hi.contains t' ht'
  · intro t' ht'
    rw [h.wait] at ht'
    by_cases hteq : t' = t
    · rw [hteq, update_self] at ht'
      cases ht'
    · rw [update_of_ne hteq] at ht'
      exact hi.remove t' ht'
  · intro t' ht'
    rw [h.wait] at ht'
    by_cases hteq : t' = t
    · rw [hteq, update_self] at ht'
      cases ht'
    · rw [update_of_ne hteq] at ht'
      exact h.succeeded t' hteq (hi.ok t' ht')

theorem any_append {α : Type*} {l new : List α} {i : Nat} {p : α → Bool}
    (h : l[i]?.any p = true) : (l ++ new)[i]?.any p = true := by
  rw [Option.any_eq_true] at h ⊢
  obtain ⟨a, ha, hp⟩ := h
  obtain ⟨hlt, -⟩ := List.getElem?_eq_some_iff.mp ha
  exact ⟨a, by rw [List.getElem?_append_left hlt]; exact ha, hp⟩

theorem submits_submit {p : Nat} {type : TaskType} (hi : UnitsInv cfg s)
    (h : s.submit cfg p type desc = some s') :
    UnitsInv cfg s' ∧ Submits s s' (p, s.dump.nextId p) desc.length := by
  unfold TransState.submit at h
  split_ifs at h with hdesc
  cases type with
  | dump =>
    cases h
    refine ⟨⟨hi.ids.append, hi.loadIds, ?_, hi.load⟩,
      ⟨rfl, rfl, rfl, rfl, rfl, rfl, rfl, ?_, ?_, ?_, ?_⟩⟩
    · intro u hu
      rcases List.mem_append.mp hu with hu | hu
      · exact hi.unit u hu
      · refine ⟨ok_of_mem_dumpUnits hdesc hu, fun _ hsucc => ?_⟩
        rw [(mem_dumpUnits hu).2.2.2.2] at hsucc
        cases heng : cfg.engine p <;> rw [heng] at hsucc <;> cases hsucc
    · refine ⟨(dumpUnits cfg p (s.dump.nextId p) s.dump.units.length desc).map
        fun u => ⟨.dump, u.id, u.task⟩, ?_, ?_, ?_⟩
      · simp only [TransState.refs, List.map_append, List.append_assoc]
        exact List.Perm.append_left _ List.perm_append_comm
      · simp [dumpUnits]
      · intro r hr
        obtain ⟨u, hu, rfl⟩ := List.mem_map.mp hr
        exact task_of_mem_dumpUnits hu
    · rintro t (⟨u, hu, hut, hpc⟩ | hload)
      · rcases List.mem_append.mp hu with hu | hu
        · exact .inl ⟨u, hu, hut, hpc⟩
        · rw [(mem_dumpUnits hu).2.2.2.2] at hpc
          cases heng : cfg.engine p <;> rw [heng] at hpc <;> cases hpc
      · exact .inr hload
    · rintro ⟨type, id, task⟩ hr
      cases type with
      | load => exact hr
      | dump => exact any_append hr
    · rintro t ht ⟨hdump, hload⟩
      refine ⟨fun u hu hut => ?_, hload⟩
      rcases List.mem_append.mp hu with hu | hu
      · exact hdump u hu hut
      · exact absurd (hut.symm.trans (task_of_mem_dumpUnits hu)) ht
  | load =>
    cases h
    refine ⟨⟨hi.ids, ?_, hi.unit, ?_⟩, ⟨rfl, rfl, rfl, rfl, rfl, rfl, rfl, ?_, ?_, ?_, ?_⟩⟩
    · intro i u hu
      rcases Nat.lt_or_ge i s.loads.length with hlt | hge
      · rw [List.getElem?_append_left hlt] at hu
        exact hi.loadIds i u hu
      · rw [List.getElem?_append_right hge, loadUnits, List.getElem?_map, List.getElem?_zipIdx] at hu
        obtain ⟨⟨shard, j⟩, hj, rfl⟩ := Option.map_eq_some_iff.mp hu
        obtain ⟨shard', -, heq⟩ := Option.map_eq_some_iff.mp hj
        cases heq
        show s.loads.length + (0 + (i - s.loads.length)) = i
        omega
    · intro u hu
      rcases List.mem_append.mp hu with hu | hu
      · exact hi.load u hu
      · obtain ⟨hshard, -, hgot, hpc⟩ := mem_loadUnits hu
        refine ⟨hdesc _ hshard, by omega, ?_⟩
        unfold LoadUnit.PcOk
        rw [hpc]
        cases cfg.engine p <;> exact hgot
    · refine ⟨(loadUnits cfg p (s.dump.nextId p) s.loads.length desc).map
        fun u => ⟨.load, u.id, u.task⟩, ?_, ?_, ?_⟩
      · simp only [TransState.refs, List.map_append, List.append_assoc]
        exact List.Perm.refl _
      · simp [loadUnits]
      · intro r hr
        obtain ⟨u, hu, rfl⟩ := List.mem_map.mp hr
        exact (mem_loadUnits hu).2.1
    · rintro t (hdump | ⟨u, hu, hut, hpc⟩)
      · exact .inl hdump
      · rcases List.mem_append.mp hu with hu | hu
        · exact .inr ⟨u, hu, hut, hpc⟩
        · rw [(mem_loadUnits hu).2.2.2] at hpc
          cases heng : cfg.engine p <;> rw [heng] at hpc <;> cases hpc
    · rintro ⟨type, id, task⟩ hr
      cases type with
      | dump => exact hr
      | load => exact any_append hr
    · rintro t ht ⟨hdump, hload⟩
      refine ⟨hdump, fun u hu hut => ?_⟩
      rcases List.mem_append.mp hu with hu | hu
      · exact hload u hu hut
      · exact absurd (hut.symm.trans (mem_loadUnits hu).2.1) ht

/-! ## Counting down -/

theorem countP_exclude {α : Type*} {l : List α} {a : α} {p q : α → Bool} (ha : a ∈ l)
    (hp : p a = true) (hq : q a = false) (hqp : ∀ x, q x = true → p x = true) :
    l.countP q + 1 ≤ l.countP p := by
  obtain ⟨l₁, l₂, rfl⟩ := List.append_of_mem ha
  have h₁ : l₁.countP q ≤ l₁.countP p := List.countP_mono_left fun x _ => hqp x
  have h₂ : l₂.countP q ≤ l₂.countP p := List.countP_mono_left fun x _ => hqp x
  rw [List.countP_append, List.countP_append, List.countP_cons_of_pos hp,
    List.countP_cons_of_neg (by simp [hq])]
  omega

theorem finished_mem_refs (hi : UnitsInv cfg s) (h : s.finished r = true) :
    r ∈ s.refs := by
  obtain ⟨type, id, task⟩ := r
  cases type with
  | dump =>
    simp only [TransState.finished, Option.any_eq_true] at h
    obtain ⟨u, hu, htest⟩ := h
    obtain rfl := hi.ids id u hu
    simp only [Bool.and_eq_true, decide_eq_true_eq] at htest
    exact mem_refs.mpr (.inl ⟨u, List.mem_of_getElem? hu, by rw [htest.1]⟩)
  | load =>
    simp only [TransState.finished, Option.any_eq_true] at h
    obtain ⟨u, hu, htest⟩ := h
    obtain rfl := hi.loadIds id u hu
    simp only [Bool.and_eq_true, decide_eq_true_eq] at htest
    exact mem_refs.mpr (.inr ⟨u, List.mem_of_getElem? hu, by rw [htest.1]⟩)

theorem latch_done_zero {t' : TaskRef} (h : s.latch t' = 0) : (s.done t).latch t' = 0 := by
  show update s.latch t (s.latch t - 1) t' = 0
  by_cases ht : t' = t
  · rw [ht] at h ⊢
    rw [update_self, h]
  · rw [update_of_ne ht, h]

theorem TaskInv.done (hu : UnitsInv cfg s) (hi : TaskInv s) (hfin : s.finished r = true)
    (hr : r ∉ s.dones) :
    TaskInv { s.done r.task with dones := r :: s.dones } where
  fresh := hi.fresh
  known := hi.known
  expiring := hi.expiring
  dones := by
    intro r' hr'
    rcases List.mem_cons.mp hr' with rfl | hr'
    · exact hfin
    · exact hi.dones r' hr'
  failed t hclean := hi.failed t ⟨hclean.failureSet, hclean.wait⟩
  idle t hclean := hi.idle t ⟨hclean.failureSet, hclean.wait⟩
  pending := by
    intro t hclean
    have hold := hi.pending t ⟨hclean.failureSet, hclean.wait⟩
    show s.refs.countP (fun r' => decide (r'.task = t ∧ r' ∉ r :: s.dones)) ≤
      update s.latch r.task (s.latch r.task - 1) t
    by_cases ht : t = r.task
    · subst ht
      have hless : s.refs.countP (fun r' => decide (r'.task = r.task ∧ r' ∉ r :: s.dones)) + 1 ≤
          s.pending r.task := by
        refine countP_exclude (finished_mem_refs hu hfin) (by simp [hr]) (by simp) fun r' hr' => ?_
        simp only [decide_eq_true_eq, List.mem_cons, not_or] at hr' ⊢
        exact ⟨hr'.1, hr'.2.2⟩
      rw [update_self]
      omega
    · rw [update_of_ne ht]
      refine Nat.le_trans (List.countP_mono_left fun r' _ hr' => ?_) hold
      simp only [decide_eq_true_eq, List.mem_cons, not_or] at hr' ⊢
      exact ⟨hr'.1, hr'.2.2⟩
  contains t ht := latch_done_zero (hi.contains t ht)
  remove := hi.remove
  ok := hi.ok

theorem TaskInv.expire (hi : TaskInv s) (hr : r ∈ s.refs) :
    TaskInv { s.fail r.task with expiring := r :: s.expiring } := by
  have hclean : ∀ t, TransState.Clean { s.fail r.task with expiring := r :: s.expiring } t →
      s.Clean t ∧ r.task ≠ t := by
    rintro t ⟨hf, hw⟩
    replace hf : t ∉ insert r.task s.dump.failureSet := hf
    rw [Finset.mem_insert, not_or] at hf
    exact ⟨⟨hf.2, hw⟩, Ne.symm hf.1⟩
  refine ⟨hi.fresh, hi.known, ?_, hi.dones, ?_, ?_, ?_, hi.contains, hi.remove, hi.ok⟩
  · intro r' hr'
    rcases List.mem_cons.mp hr' with rfl | hr'
    · exact hr
    · exact hi.expiring r' hr'
  · intro t ht
    exact hi.failed t (hclean t ht).1
  · intro t ht r' hr'
    rcases List.mem_cons.mp hr' with rfl | hr'
    · exact (hclean t ht).2
    · exact hi.idle t (hclean t ht).1 r' hr'
  · intro t ht
    exact hi.pending t (hclean t ht).1

theorem TaskInv.expired (hi : TaskInv s) (hr : r ∈ s.expiring) :
    TaskInv { s.done r.task with expiring := s.expiring.erase r } := by
  refine ⟨hi.fresh, hi.known, ?_, hi.dones, ?_, ?_, ?_, ?_, hi.remove, hi.ok⟩
  · intro r' hr'
    exact hi.expiring r' (List.mem_of_mem_erase hr')
  · intro t ht
    exact hi.failed t ⟨ht.failureSet, ht.wait⟩
  · intro t ht r' hr'
    exact hi.idle t ⟨ht.failureSet, ht.wait⟩ r' (List.mem_of_mem_erase hr')
  · intro t ht
    have hold := hi.pending t ⟨ht.failureSet, ht.wait⟩
    have hne := hi.idle t ⟨ht.failureSet, ht.wait⟩ r hr
    show s.pending t ≤ update s.latch r.task (s.latch r.task - 1) t
    rw [update_of_ne (Ne.symm hne)]
    exact hold
  · intro t ht
    exact latch_done_zero (hi.contains t ht)

theorem TaskInv.setWait (hi : TaskInv s) {f : Finset TaskRef} {pc : WaitPc}
    (hs' : s' = { s with
      dump := { s.dump with failureSet := f }, wait := update s.wait t pc })
    (hknown : s.wait t ≠ .unknown) (hclean : ∀ t', s'.Clean t' → s.Clean t')
    (hcontains : pc = .contains → s.latch t = 0) (hremove : pc ≠ .remove .ok)
    (hok : pc = .returned .ok → s.Succeeded t) : TaskInv s' := by
  have hwait : ∀ {t' pc'}, s'.wait t' = pc' → t' = t ∧ pc = pc' ∨ s.wait t' = pc' := by
    intro t' pc' h
    rw [hs'] at h
    replace h : update s.wait t pc t' = pc' := h
    by_cases ht : t' = t
    · rw [ht, update_self] at h
      exact .inl ⟨ht, h⟩
    · rw [update_of_ne ht] at h
      exact .inr h
  have hrest : s'.dump.nextId = s.dump.nextId ∧ s'.refs = s.refs ∧ s'.expiring = s.expiring ∧
      s'.dones = s.dones ∧ s'.finished = s.finished ∧ s'.latch = s.latch ∧ s'.Failed = s.Failed ∧
      s'.pending = s.pending ∧ s'.Succeeded = s.Succeeded := by
    subst hs'
    exact ⟨rfl, rfl, rfl, rfl, rfl, rfl, rfl, rfl, rfl⟩
  obtain ⟨hnext, hrefs, hexp, hdones, hfin, hlatch, hfailed, hpending, hsucc⟩ := hrest
  refine ⟨?_, ?_, ?_, ?_, ?_, ?_, ?_, ?_, ?_, ?_⟩
  · rw [hnext, hrefs]
    exact hi.fresh
  · intro t' ht'
    rw [hnext]
    rcases hwait (rfl : s'.wait t' = s'.wait t') with ⟨rfl, -⟩ | hold
    · exact hi.known t' hknown
    · exact hi.known t' (by rw [hold]; exact ht')
  · rw [hexp, hrefs]
    exact hi.expiring
  · rw [hdones, hfin]
    exact hi.dones
  · rw [hfailed]
    exact fun t' ht' => hi.failed t' (hclean t' ht')
  · rw [hexp]
    exact fun t' ht' => hi.idle t' (hclean t' ht')
  · rw [hpending, hlatch]
    exact fun t' ht' => hi.pending t' (hclean t' ht')
  · intro t' ht'
    rw [hlatch]
    rcases hwait ht' with ⟨rfl, hpc⟩ | hold
    · exact hcontains hpc
    · exact hi.contains t' hold
  · intro t' ht'
    rcases hwait ht' with ⟨rfl, hpc⟩ | hold
    · exact hremove hpc
    · exact hi.remove t' hold
  · intro t' ht'
    rw [hsucc]
    rcases hwait ht' with ⟨rfl, hpc⟩ | hold
    · exact hok hpc
    · exact hi.ok t' hold

theorem waitStep_cases {timedOut : Bool} (h : s.waitStep t timedOut = some s') :
    ∃ f pc, s' = { s with
        dump := { s.dump with failureSet := f }, wait := update s.wait t pc } ∧
      s.wait t ≠ .unknown ∧
      (f = s.dump.failureSet ∨ f = insert t s.dump.failureSet ∧ pc = .drain ∨
        f = s.dump.failureSet.erase t ∧ ∃ st, s.wait t = .remove st ∧ pc = .returned st) ∧
      (pc = .waitFor → s.wait t = .registered) ∧ pc ≠ .registered ∧
      (pc = .contains → s.wait t = .waitFor ∧ s.latch t = 0) ∧ pc ≠ .remove .ok ∧
      (pc = .returned .ok → s.wait t = .remove .ok ∨
        s.wait t = .contains ∧ t ∉ s.dump.failureSet) := by
  unfold TransState.waitStep at h
  split at h
  · cases h
  · cases h
  · next hw =>
    cases h
    exact ⟨_, _, rfl, by rw [hw]; nofun, .inl rfl, fun _ => hw, nofun, nofun, nofun, nofun⟩
  · next hw =>
    split_ifs at h with hlatch <;> cases h
    · exact ⟨_, _, rfl, by rw [hw]; nofun, .inl rfl, nofun, nofun, fun _ => ⟨hw, hlatch⟩, nofun,
        nofun⟩
    · exact ⟨_, _, rfl, by rw [hw]; nofun, .inl rfl, nofun, nofun, nofun, nofun, nofun⟩
  · next hw =>
    split_ifs at h with hf <;> cases h
    · exact ⟨_, _, rfl, by rw [hw]; nofun, .inl rfl, nofun, nofun, nofun, nofun, nofun⟩
    · exact ⟨_, _, rfl, by rw [hw]; nofun, .inl rfl, nofun, nofun, nofun, nofun,
        fun _ => .inr ⟨hw, hf⟩⟩
  · next hw =>
    cases h
    exact ⟨_, _, rfl, by rw [hw]; nofun, .inr (.inl ⟨rfl, rfl⟩), nofun, nofun, nofun, nofun, nofun⟩
  · next hw =>
    split_ifs at h
    cases h
    exact ⟨_, _, rfl, by rw [hw]; nofun, .inl rfl, nofun, nofun, nofun, nofun, nofun⟩
  · next st hw =>
    cases h
    refine ⟨_, _, rfl, by rw [hw]; nofun, .inr (.inr ⟨rfl, st, hw, rfl⟩), nofun, nofun, nofun, nofun,
      fun hst => .inl ?_⟩
    cases hst
    exact hw

theorem clean_of_waitStep {timedOut : Bool} (h : s.waitStep t timedOut = some s') {t' : TaskRef}
    (hclean : s'.Clean t') : s.Clean t' := by
  obtain ⟨f, pc, rfl, -, hf, hwaitFor, hreg, hcontains, -⟩ := waitStep_cases h
  obtain ⟨hset, hwait⟩ := hclean
  replace hset : t' ∉ f := hset
  replace hwait : update s.wait t pc t' = .registered ∨
    update s.wait t pc t' = .waitFor ∨ update s.wait t pc t' = .contains := hwait
  by_cases ht : t' = t
  · subst ht
    rw [update_self] at hwait
    refine ⟨?_, ?_⟩
    · rcases hf with rfl | ⟨-, rfl⟩ | ⟨-, st, -, rfl⟩
      · exact hset
      · rcases hwait with h | h | h <;> cases h
      · rcases hwait with h | h | h <;> cases h
    · rcases hwait with h | h | h
      · exact absurd h hreg
      · exact .inl (hwaitFor h)
      · exact .inr (.inl (hcontains h).1)
  · rw [update_of_ne ht] at hwait
    refine ⟨?_, hwait⟩
    rcases hf with rfl | ⟨rfl, -⟩ | ⟨rfl, -⟩
    · exact hset
    · exact fun h => hset (Finset.mem_insert_of_mem h)
    · exact fun h => hset (Finset.mem_erase.mpr ⟨ht, h⟩)

theorem TaskInv.waitStep (hu : UnitsInv cfg s) (hi : TaskInv s) {timedOut : Bool}
    (h : s.waitStep t timedOut = some s') : TaskInv s' := by
  obtain ⟨f, pc, hs', hknown, -, -, -, hcontains, hremove, hok⟩ := waitStep_cases h
  refine hi.setWait hs' hknown (fun t' => clean_of_waitStep h) (fun hpc => (hcontains hpc).2)
    hremove fun hpc => ?_
  rcases hok hpc with hold | ⟨hw, hf⟩
  · exact absurd hold (hi.remove t)
  · exact hi.succeeded hu ⟨hf, .inr (.inr hw)⟩ (hi.contains t hw)

/-! ## Runs -/

theorem transInv_start : UnitsInv cfg .start ∧ TaskInv .start := by
  refine ⟨⟨?_, ?_, ?_, ?_⟩, ?_⟩
  · intro i u hu
    simp [TransState.start, DumpState.start] at hu
  · intro i u hu
    simp [TransState.start] at hu
  · intro u hu
    cases hu
  · intro u hu
    cases hu
  · have hclean : ∀ t, ¬TransState.Clean .start t := by
      rintro t ⟨-, hw⟩
      rcases hw with h | h | h <;> cases h
    refine ⟨fun r hr => absurd hr List.not_mem_nil, fun t ht => absurd rfl ht,
      fun r hr => absurd hr List.not_mem_nil, fun r hr => absurd hr List.not_mem_nil,
      fun t ht => absurd ht (hclean t), fun t ht => absurd ht (hclean t),
      fun t ht => absurd ht (hclean t), ?_, ?_, ?_⟩
    all_goals
      intro t ht
      cases ht

theorem transInv_step {e : TransEvent} (hu : UnitsInv cfg s) (hi : TaskInv s)
    (h : transStep cfg s e = some s') : UnitsInv cfg s' ∧ TaskInv s' := by
  cases e with
  | submit p type desc =>
    obtain ⟨hu', hsub⟩ := submits_submit hu h
    exact ⟨hu', hi.submit hsub⟩
  | dump id env =>
    obtain ⟨d, hd, rfl⟩ := Option.map_eq_some_iff.mp h
    obtain ⟨u, hget, hstep⟩ := Option.bind_eq_some_iff.mp hd
    obtain rfl := hu.ids id u hget
    obtain ⟨hu', hm⟩ := moves_dump hu hget hstep
    exact ⟨hu', hi.moves hm⟩
  | load id env =>
    obtain ⟨hu', hm⟩ := moves_load hu h
    exact ⟨hu', hi.moves hm⟩
  | done r =>
    simp only [transStep] at h
    split_ifs at h with hr
    cases h
    exact ⟨⟨hu.ids, hu.loadIds, hu.unit, hu.load⟩, hi.done hu hr.1 hr.2⟩
  | commit j env =>
    obtain ⟨d, hd, rfl⟩ := Option.map_eq_some_iff.mp h
    obtain ⟨fs, commits, rfl⟩ := stepCommit_frame hd
    exact ⟨⟨hu.ids, hu.loadIds, hu.unit, hu.load⟩, hi.moves ⟨rfl, rfl, rfl, rfl, rfl, rfl, subset_rfl,
      fun _ h => .inl h, fun _ h => h, fun _ h => h⟩⟩
  | expire r =>
    simp only [transStep] at h
    split_ifs at h with hr
    cases h
    exact ⟨⟨hu.ids, hu.loadIds, hu.unit, hu.load⟩, hi.expire hr.1⟩
  | expired r =>
    simp only [transStep] at h
    split_ifs at h with hr
    cases h
    exact ⟨⟨hu.ids, hu.loadIds, hu.unit, hu.load⟩, hi.expired hr⟩
  | wait t timedOut =>
    refine ⟨?_, hi.waitStep hu h⟩
    obtain ⟨f, pc, rfl, -⟩ := waitStep_cases h
    exact ⟨hu.ids, hu.loadIds, hu.unit, hu.load⟩

theorem transInv_reach (h : (transMachine cfg).Reachable s) : UnitsInv cfg s ∧ TaskInv s := by
  refine h.inv (I := fun s => UnitsInv cfg s ∧ TaskInv s) ?_ ?_
  · rintro s rfl
    exact transInv_start
  · intro s e s' hi _ hstep
    exact transInv_step hi.1 hi.2 hstep

/-! ## What was transferred -/

section Transferred

variable {p len : Nat} {shard : Shard}

theorem tensor_lt_shard {k x : Nat} (hk : k < cfg.shardSize / cfg.tensorSize)
    (hx : x < cfg.tensorSize) : k * cfg.tensorSize + x < cfg.shardSize := by
  calc k * cfg.tensorSize + x < k * cfg.tensorSize + cfg.tensorSize := by omega
    _ = (k + 1) * cfg.tensorSize := by rw [Nat.add_mul, Nat.one_mul]
    _ ≤ cfg.shardSize / cfg.tensorSize * cfg.tensorSize := Nat.mul_le_mul_right _ hk
    _ ≤ cfg.shardSize := Nat.div_mul_le_self _ _

theorem moved_iff {k x addr : Nat} :
    cfg.Moved p shard len (shard.index * cfg.shardSize + k * cfg.tensorSize + x) addr ↔
      k * cfg.tensorSize + x < len ∧ addr = cfg.address p shard (k * cfg.tensorSize + x) := by
  constructor
  · rintro ⟨y, hy, hoffset, haddr⟩
    obtain rfl : y = k * cfg.tensorSize + x := by omega
    exact ⟨hy, haddr⟩
  · rintro ⟨hlt, haddr⟩
    exact ⟨_, hlt, by omega, haddr⟩

theorem transferred_psync (heng : cfg.engine p = .psync) :
    cfg.Transferred p shard cfg.shardSize := by
  intro k hk x hx addr
  rw [moved_iff]
  simp only [DumpConfig.address, heng, Strides.mul_add_div_of_lt hx, Nat.mul_add_mod_of_lt hx,
    tensor_lt_shard hk hx, true_and]

theorem transferred_aio (heng : cfg.engine p = .aio) (hlen : len ≤ cfg.shardSize) :
    cfg.Transferred p shard len ↔ cfg.Adjacent shard ∧ len = cfg.shardSize := by
  have hmul : cfg.shardSize / cfg.tensorSize * cfg.tensorSize = cfg.shardSize :=
    Nat.div_mul_cancel (Nat.dvd_of_mod_eq_zero cfg.tensor_dvd)
  have htensor := Nat.pos_of_ne_zero cfg.tensor_pos
  constructor
  · intro h
    have hbyte : ∀ k < cfg.shardSize / cfg.tensorSize, ∀ x < cfg.tensorSize,
        k * cfg.tensorSize + x < len ∧
          shard.addrs.getD k 0 + x = shard.addrs.headD 0 + (k * cfg.tensorSize + x) := by
      intro k hk x hx
      have hmoved := moved_iff.mp ((h k hk x hx _).mpr rfl)
      simp only [DumpConfig.address, heng] at hmoved
      exact hmoved
    refine ⟨fun k hk => ?_, Nat.le_antisymm hlen ?_⟩
    · have := (hbyte k hk 0 htensor).2
      omega
    · -- The last byte of the last tensor.
      have hpos : 0 < cfg.shardSize / cfg.tensorSize := Nat.div_pos cfg.tensor_le htensor
      have hlast := (hbyte (cfg.shardSize / cfg.tensorSize - 1) (by omega) (cfg.tensorSize - 1)
        (by omega)).1
      rw [Nat.sub_mul, hmul, Nat.one_mul] at hlast
      have := cfg.tensor_le
      omega
  · rintro ⟨hadj, rfl⟩ k hk x hx addr
    rw [moved_iff]
    simp only [DumpConfig.address, heng, tensor_lt_shard hk hx, true_and, hadj k hk, Nat.add_assoc]

end Transferred

/-- **What a successful transfer is**: when `Wait` of a task has returned OK, every tensor of its shards
was transferred from or to its buffer if and only if, for a task of the aio engine, the buffers of
each shard are adjacent and the kernel has transferred the whole shard. -/
theorem ok_transferred_iff (h : (transMachine cfg).Reachable s) (ht : s.wait t = .returned .ok) :
    ((∀ u ∈ s.dump.units, u.task = t → cfg.Transferred u.proc u.shard u.written) ∧
        ∀ u ∈ s.loads, u.task = t → cfg.Transferred u.proc u.shard u.got) ↔
      (cfg.engine t.1 = .aio →
        (∀ u ∈ s.dump.units, u.task = t → cfg.Adjacent u.shard ∧ u.written = cfg.shardSize) ∧
          ∀ u ∈ s.loads, u.task = t → cfg.Adjacent u.shard ∧ u.got = cfg.shardSize) := by
  obtain ⟨hu, hi⟩ := transInv_reach h
  obtain ⟨hdump, hload⟩ := hi.ok t ht
  cases heng : cfg.engine t.1 with
  | psync =>
    refine ⟨fun _ => nofun, fun _ => ⟨?_, ?_⟩⟩
    · rintro u hmem rfl
      have hfull : u.written = cfg.shardSize :=
        (hu.unit u hmem).2 heng (by rw [hdump u hmem rfl]; rfl)
      rw [hfull]
      exact transferred_psync heng
    · rintro u hmem rfl
      have hpc := (hu.load u hmem).pc
      unfold LoadUnit.PcOk at hpc
      rw [hload u hmem rfl] at hpc
      rw [hpc heng]
      exact transferred_psync heng
  | aio =>
    have hdumps : ∀ u ∈ s.dump.units, u.task = t → (cfg.Transferred u.proc u.shard u.written ↔
        cfg.Adjacent u.shard ∧ u.written = cfg.shardSize) := by
      rintro u hmem rfl
      exact transferred_aio heng (hu.unit u hmem).1.written
    have hloads : ∀ u ∈ s.loads, u.task = t → (cfg.Transferred u.proc u.shard u.got ↔
        cfg.Adjacent u.shard ∧ u.got = cfg.shardSize) := by
      rintro u hmem rfl
      exact transferred_aio heng (hu.load u hmem).got
    constructor
    · rintro ⟨hd, hl⟩ -
      exact ⟨fun u hmem hut => (hdumps u hmem hut).mp (hd u hmem hut),
        fun u hmem hut => (hloads u hmem hut).mp (hl u hmem hut)⟩
    · intro hall
      obtain ⟨hd, hl⟩ := hall rfl
      exact ⟨fun u hmem hut => (hdumps u hmem hut).mpr (hd u hmem hut),
        fun u hmem hut => (hloads u hmem hut).mpr (hl u hmem hut)⟩

/-! ## Read your writes -/

/-- Where the commits of clean tasks and of those that were reported OK stand. -/
structure CommitInv (cfg : DumpConfig) (s : TransState) : Prop where
  ended : ∀ u ∈ s.dump.units, s.Clean u.task → cfg.Last u.shard → u.pc.ends = true →
    s.dump.Committed u.shard.owner
  ok : ∀ u ∈ s.dump.units, s.wait u.task = .returned .ok → cfg.Last u.shard →
    s.dump.Archived u.shard.owner

theorem CommitInv.frame (hi : CommitInv cfg s) (hunits : s'.dump.units = s.dump.units)
    (hclean : ∀ t, s'.Clean t → s.Clean t)
    (harch : ∀ b, s.dump.Archived b → s'.dump.Archived b)
    (hcommitted : ∀ b, s.dump.Committed b → s'.dump.Committed b)
    (hok : ∀ t, s'.wait t = .returned .ok → s.wait t = .returned .ok) : CommitInv cfg s' where
  ended := by
    rw [hunits]
    intro u hu hcl hlast hends
    exact hcommitted _ (hi.ended u hu (hclean _ hcl) hlast hends)
  ok := by
    rw [hunits]
    intro u hu hw hlast
    exact harch _ (hi.ok u hu (hok _ hw) hlast)

theorem archive_none_of_fs {d' : DumpState} {b : BlockId} {ok : Bool} (hfs : d'.fs = d.fs)
    (h : d'.archive b ok = none) : d.archive b ok = none := by
  unfold DumpState.archive at h ⊢
  rw [hfs] at h
  split_ifs at h ⊢
  · rw [Option.map_eq_none_iff] at h ⊢
    exact h
  · rfl

theorem stepCommit_committed {env : DumpEnv} {j : Nat} {d' : DumpState}
    (h : stepCommit env j d = some d') :
    (∀ b, d.Archived b → d'.Archived b) ∧
      ((∀ task ∈ d.commits[j]?, task.remove = false → d.archive task.id env.ok = none →
        d.Archived task.id) → ∀ b, d.Committed b → d'.Committed b) := by
  unfold stepCommit at h
  split at h
  · cases h
  · next task hj =>
    -- Every other commit is still there.
    have hother : ∀ task' ∈ d.commits, task' ≠ task → task' ∈ d.commits.eraseIdx j := by
      intro task' hmem hne
      obtain ⟨i, hi⟩ := List.getElem?_of_mem hmem
      refine List.mem_eraseIdx_iff_getElem?.mpr ⟨i, ?_, hi⟩
      rintro rfl
      rw [hj] at hi
      exact hne (Option.some.inj hi).symm
    dsimp only at h
    split_ifs at h with hremove
    · cases h
      have harch : ∀ b, d.Archived b →
          (DumpState.removeActivated { d with commits := d.commits.eraseIdx j } task.id
            env.ok).Archived b := by
        intro b hb
        exact archived_remove (s := { d with commits := d.commits.eraseIdx j }) hb _ _
      refine ⟨harch, fun _ b hb => ?_⟩
      rcases hb with hb | ⟨task', hmem, hid, hkeep⟩
      · exact .inl (harch b hb)
      · refine .inr ⟨task', ?_, hid, hkeep⟩
        have hmem' := hother task' hmem (by rintro rfl; rw [hremove] at hkeep; cases hkeep)
        unfold DumpState.removeActivated
        split_ifs <;> exact hmem'
    · split at h
      · next harch =>
        cases h
        obtain ⟨hself, hothers, fs, rfl⟩ := archive_eq_some harch
        refine ⟨hothers, fun _ b hb => ?_⟩
        rcases hb with hb | ⟨task', hmem, hid, hkeep⟩
        · exact .inl (hothers b hb)
        · by_cases heq : task' = task
          · rw [← hid, heq]
            exact .inl hself
          · exact .inr ⟨task', hother task' hmem heq, hid, hkeep⟩
      · next harch =>
        cases h
        refine ⟨fun _ hb => hb, fun hcond b hb => ?_⟩
        rcases hb with hb | ⟨task', hmem, hid, hkeep⟩
        · exact .inl hb
        · by_cases heq : task' = task
          · rw [← hid, heq]
            refine .inl (hcond task hj (by simpa using hremove) ?_)
            exact archive_none_of_fs (by rfl) harch
          · obtain ⟨i, hi⟩ := List.getElem?_of_mem hmem
            refine .inr ⟨task', List.mem_of_getElem? (i := i) ?_, hid, hkeep⟩
            show (d.commits.set j _)[i]? = some task'
            rw [List.getElem?_set_ne, hi]
            rintro rfl
            rw [hj] at hi
            exact heq (Option.some.inj hi).symm

theorem CommitInv.dump (hu : UnitsInv cfg s) (hi : CommitInv cfg s) {env : DumpEnv} {u : DumpUnit}
    (hget : s.dump.units[u.id]? = some u)
    (hcond : u.pc = .commit true → s.dump.archive u.shard.owner env.ok = none →
      s.dump.Archived u.shard.owner) (h : stepUnit cfg env u s.dump = some d) :
    CommitInv cfg { s with dump := d } := by
  have hmem := List.mem_of_getElem? hget
  have hclean := fun t => (moves_dump hu hget h).2.clean (t := t)
  obtain ⟨u', hm⟩ := stepUnit_moves (hu.unit u hmem).1 h
  have hset : ∀ w, w ∈ d.units → w = u' ∨ w ∈ s.dump.units := by
    intro w hw
    rw [hm.units] at hw
    exact ((mem_set_unit hu.ids hget).mp hw).imp_right And.left
  have hcommitted : ∀ b, s.dump.Committed b → d.Committed b := by
    rintro b (hb | ⟨task, htask, hrest⟩)
    · exact .inl (hm.archived b hb)
    · exact .inr ⟨task, hm.commits htask, hrest⟩
  constructor
  · intro w hw hcl hlast hends
    rcases hset w hw with rfl | hw
    · rw [hm.shard] at hlast ⊢
      rcases hm.ends hlast hends with hold | hnew | hf | ⟨hpc, harch⟩
      · refine hcommitted _ (hi.ended u hmem (hclean _ ?_) hlast hold)
        rw [← hm.task]
        exact hcl
      · exact hnew
      · rw [← hm.task] at hf
        exact absurd hf hcl.failureSet
      · exact .inl (hm.archived _ (hcond hpc harch))
    · exact hcommitted _ (hi.ended w hw (hclean _ hcl) hlast hends)
  · intro w hw hwait hlast
    rcases hset w hw with rfl | hw
    · rw [hm.task] at hwait
      rw [hm.shard] at hlast ⊢
      exact hm.archived _ (hi.ok u hmem hwait hlast)
    · exact hm.archived _ (hi.ok w hw hwait hlast)

theorem CommitInv.wait (hu : UnitsInv cfg s) (ht : TaskInv s) (hi : CommitInv cfg s)
    {timedOut : Bool} (hcond : CommitsInTime cfg s (.wait t timedOut))
    (h : s.waitStep t timedOut = some s') : CommitInv cfg s' := by
  have hclean : ∀ t', s'.Clean t' → s.Clean t' := fun _ => clean_of_waitStep h
  obtain ⟨f, pc, rfl, -, -, -, -, -, -, hok⟩ := waitStep_cases h
  constructor
  · intro u hmem hcl hlast hends
    exact hi.ended u hmem (hclean _ hcl) hlast hends
  · intro u hmem hwait hlast
    replace hwait : update s.wait t pc u.task = .returned .ok := hwait
    by_cases hut : u.task = t
    · rw [hut, update_self] at hwait
      rcases hok hwait with hold | ⟨hw, hf⟩
      · exact absurd hold (ht.remove t)
      · have hcl : s.Clean t := ⟨hf, .inr (.inr hw)⟩
        have hdone := (ht.succeeded hu hcl (ht.contains t hw)).1 u hmem hut
        rcases hi.ended u hmem (by rw [hut]; exact hcl) hlast (by rw [hdone]; rfl) with
          harch | ⟨task, htask, hid, -⟩
        · exact harch
        · exact hcond hw hf u hmem hut hlast task htask hid
    · rw [update_of_ne hut] at hwait
      exact hi.ok u hmem hwait hlast

theorem CommitInv.submit (ht : TaskInv s) (hi : CommitInv cfg s) {p : Nat} {type : TaskType}
    (hu : UnitsInv cfg s) (h : s.submit cfg p type desc = some s') :
    CommitInv cfg s' := by
  obtain ⟨-, hsub⟩ := submits_submit hu h
  have hold : ∀ u ∈ s.dump.units, u.task ≠ (p, s.dump.nextId p) := by
    intro u hmem
    exact ht.ne_task hsub (mem_refs.mpr (.inl ⟨u, hmem, rfl⟩))
  unfold TransState.submit at h
  split_ifs at h
  have hwait : ∀ u ∈ s.dump.units, s'.wait u.task = s.wait u.task := by
    intro u hmem
    rw [hsub.wait, update_of_ne (hold u hmem)]
  cases type with
  | dump =>
    cases h
    constructor
    · intro u hmem hcl hlast hends
      rcases List.mem_append.mp hmem with hmem | hmem
      · exact hi.ended u hmem (hsub.clean (hold u hmem) hcl) hlast hends
      · rw [(mem_dumpUnits hmem).2.2.2.2] at hends
        cases heng : cfg.engine p <;> rw [heng] at hends <;> cases hends
    · intro u hmem hw hlast
      rcases List.mem_append.mp hmem with hmem | hmem
      · rw [hwait u hmem] at hw
        exact hi.ok u hmem hw hlast
      · rw [hsub.wait, task_of_mem_dumpUnits hmem, update_self] at hw
        cases hw
  | load =>
    cases h
    constructor
    · intro u hmem hcl hlast hends
      exact hi.ended u hmem (hsub.clean (hold u hmem) hcl) hlast hends
    · intro u hmem hw hlast
      rw [hwait u hmem] at hw
      exact hi.ok u hmem hw hlast

theorem commitInv_step {e : TransEvent} (hu : UnitsInv cfg s) (ht : TaskInv s)
    (hi : CommitInv cfg s) (hcond : CommitsInTime cfg s e) (h : transStep cfg s e = some s') :
    CommitInv cfg s' := by
  cases e with
  | submit p type desc => exact hi.submit ht hu h
  | dump id env =>
    obtain ⟨d, hd, rfl⟩ := Option.map_eq_some_iff.mp h
    obtain ⟨u, hget, hstep⟩ := Option.bind_eq_some_iff.mp hd
    obtain rfl := hu.ids id u hget
    exact hi.dump hu hget (hcond u hget) hstep
  | load id env =>
    have hm := (moves_load hu h).2
    obtain ⟨f, loads, rfl⟩ : ∃ f loads, s' = { s with
        loads := loads, dump := { s.dump with failureSet := f } } := by
      obtain ⟨u, -, hmap⟩ := Option.bind_eq_some_iff.mp h
      obtain ⟨⟨u', failed⟩, -, rfl⟩ := Option.map_eq_some_iff.mp hmap
      dsimp only
      split_ifs
      · exact ⟨_, _, rfl⟩
      · exact ⟨s.dump.failureSet, _, rfl⟩
    exact hi.frame rfl (fun t => hm.clean) (fun _ h => h) (fun _ h => h) fun _ h => h
  | done r | expired r =>
    simp only [transStep] at h
    split_ifs at h
    cases h
    exact hi.frame rfl (fun t ht => ⟨ht.failureSet, ht.wait⟩) (fun _ h => h) (fun _ h => h)
      fun _ h => h
  | commit j env =>
    obtain ⟨d, hd, rfl⟩ := Option.map_eq_some_iff.mp h
    obtain ⟨harch, hcommitted⟩ := stepCommit_committed hd
    obtain ⟨fs, commits, rfl⟩ := stepCommit_frame hd
    exact hi.frame rfl (fun t ht => ⟨ht.failureSet, ht.wait⟩) harch (hcommitted hcond) fun _ h => h
  | expire r =>
    simp only [transStep] at h
    split_ifs at h
    cases h
    exact hi.frame rfl (fun t ht => ⟨fun h => ht.failureSet (Finset.mem_insert_of_mem h), ht.wait⟩)
      (fun _ h => h) (fun _ h => h) fun _ h => h
  | wait t timedOut => exact hi.wait hu ht hcond h

theorem archived_step {e : TransEvent} {b : BlockId} (hu : UnitsInv cfg s)
    (hb : s.dump.Archived b) (h : transStep cfg s e = some s') : s'.dump.Archived b := by
  cases e with
  | submit p type desc =>
    simp only [transStep, TransState.submit] at h
    split_ifs at h
    cases type <;> cases h <;> exact hb
  | dump id env =>
    obtain ⟨d, hd, rfl⟩ := Option.map_eq_some_iff.mp h
    obtain ⟨u, hget, hstep⟩ := Option.bind_eq_some_iff.mp hd
    obtain ⟨u', hm⟩ := stepUnit_moves (hu.unit u (List.mem_of_getElem? hget)).1 hstep
    exact hm.archived b hb
  | load id env =>
    obtain ⟨u, -, hmap⟩ := Option.bind_eq_some_iff.mp h
    obtain ⟨⟨u', failed⟩, -, rfl⟩ := Option.map_eq_some_iff.mp hmap
    dsimp only
    split_ifs <;> exact hb
  | done r | expire r | expired r =>
    simp only [transStep] at h
    split_ifs at h
    cases h
    exact hb
  | commit j env =>
    obtain ⟨d, hd, rfl⟩ := Option.map_eq_some_iff.mp h
    exact (stepCommit_committed hd).1 b hb
  | wait t timedOut =>
    obtain ⟨f, pc, rfl, -⟩ := waitStep_cases h
    exact hb

theorem nShardPerBlock_pos : 0 < cfg.nShardPerBlock := by
  refine Nat.div_pos cfg.shard_le ?_
  exact Nat.lt_of_lt_of_le (Nat.pos_of_ne_zero cfg.tensor_pos) cfg.tensor_le

/-- **Read your writes**, in every run in which the commits do what their tasks report: when dump tasks
that cover every shard of a block have all been waited for with OK, the archived file of the block
exists in every later state. -/
theorem read_your_writes (h : (transMachine cfg).Reach (CommitsInTime cfg) s) (b : BlockId)
    (hcover : ∀ i < cfg.nShardPerBlock, ∃ u ∈ s.dump.units, u.shard.owner = b ∧ u.shard.index = i ∧
      s.wait u.task = .returned .ok) :
    ∀ s', ((transMachine cfg).after s).Reachable s' → s'.dump.Archived b := by
  have hi : (UnitsInv cfg s ∧ TaskInv s) ∧ CommitInv cfg s := by
    refine h.inv (I := fun s => (UnitsInv cfg s ∧ TaskInv s) ∧ CommitInv cfg s) ?_ ?_
    · rintro s rfl
      exact ⟨transInv_start, nofun, nofun⟩
    · intro s e s' hi hcond hstep
      exact ⟨transInv_step hi.1.1 hi.1.2 hstep, commitInv_step hi.1.1 hi.1.2 hi.2 hcond hstep⟩
  have hpos : 0 < cfg.nShardPerBlock := nShardPerBlock_pos
  obtain ⟨u, hmem, rfl, hindex, hwait⟩ := hcover (cfg.nShardPerBlock - 1) (by omega)
  have hlast : cfg.Last u.shard := by
    unfold DumpConfig.Last
    omega
  intro s' hs'
  have hlater : (UnitsInv cfg s' ∧ TaskInv s') ∧ s'.dump.Archived u.shard.owner := by
    refine Machine.after_inv (I := fun s => (UnitsInv cfg s ∧ TaskInv s) ∧
      s.dump.Archived u.shard.owner) ⟨hi.1, hi.2.ok u hmem hwait hlast⟩ ?_ hs'
    intro s e s' hi hstep
    exact ⟨transInv_step hi.1.1 hi.1.2 hstep, archived_step hi.1.1 hi.2 hstep⟩
  exact hlater.2

/-! ## Concrete runs -/

/-- The first process dumps block 5 with psync and the second one block 6 with aio, up to the commits:
all shards are written. -/
def transTwoBlocks : List TransEvent :=
  [.submit 0 .dump [⟨5, 0, [10]⟩, ⟨5, 1, [20]⟩], .submit 1 .dump [⟨6, 0, [30]⟩, ⟨6, 1, [40]⟩]] ++
  [0, 1].flatMap (fun id => [.dump id { }, .dump id { }, .dump id { bytes := 2 }, .dump id { },
    .dump id { }]) ++
  [2, 3].flatMap (fun id => [.dump id { }, .dump id { }, .dump id { },
    .dump id { bytes := 2, result := some true }, .dump id { }])

/-- Their units call `Done`, and both tasks are waited for. -/
def transDoneAndWait : List TransEvent :=
  [.done ⟨.dump, 0, (0, 1)⟩, .done ⟨.dump, 1, (0, 1)⟩, .done ⟨.dump, 2, (1, 1)⟩,
    .done ⟨.dump, 3, (1, 1)⟩] ++
  List.replicate 3 (.wait (0, 1) false) ++ List.replicate 3 (.wait (1, 1) false)

/-- Dump tasks that cover the block have been waited for with OK. -/
def coveredOk (s : TransState) (b : BlockId) : Bool :=
  decide (∀ i < DumpConfig.small.nShardPerBlock, ∃ u ∈ s.dump.units, u.shard.owner = b ∧
    u.shard.index = i ∧ s.wait u.task = .returned .ok)

/-- Both commits are executed before the tasks are waited for. -/
theorem read_your_writes_two_blocks :
    ∃ s, (transMachine .small).Reach (CommitsInTime .small) s ∧ ∀ b ∈ [5, 6],
      coveredOk s b = true ∧
        ∀ s', ((transMachine .small).after s).Reachable s' → s'.dump.Archived b := by
  obtain ⟨s, hreach, hp⟩ := Machine.exists_reach_of_run (M := transMachine .small)
    (C := CommitsInTime .small) (s := .start) (l := transTwoBlocks ++ [.dump 1 { }, .dump 3 { },
      .commit 0 { }] ++ transDoneAndWait) (p := fun s => [5, 6].all (coveredOk s)) rfl
    (by decide +kernel)
  refine ⟨s, hreach, fun b hb => ?_⟩
  have hcover := List.all_eq_true.mp hp b hb
  exact ⟨hcover, read_your_writes hreach b (of_decide_eq_true hcover)⟩

/-- The rename of the first block fails and the commit of the second one is still in the queue: both
tasks are reported OK, and neither block is archived. -/
theorem writes_lost :
    ∃ s, (transMachine .small).Reachable s ∧ ∀ b ∈ [5, 6],
      (∀ i < DumpConfig.small.nShardPerBlock, ∃ u ∈ s.dump.units, u.shard.owner = b ∧
        u.shard.index = i ∧ s.wait u.task = .returned .ok) ∧ ¬s.dump.Archived b := by
  obtain ⟨s, hs, hp⟩ := Machine.exists_reachable_of_run (M := transMachine .small) (s := .start)
    (l := transTwoBlocks ++ [.dump 1 { ok := false }, .dump 1 { }, .dump 3 { }] ++ transDoneAndWait)
    (p := fun s => [5, 6].all fun b => coveredOk s b && decide (¬s.dump.Archived b)) rfl
    (by decide +kernel)
  refine ⟨s, hs, fun b hb => ?_⟩
  have hb' := List.all_eq_true.mp hp b hb
  simp only [Bool.and_eq_true, decide_eq_true_eq] at hb'
  exact ⟨of_decide_eq_true hb'.1, hb'.2⟩

/-- A dump of one shard with aio, of which the kernel writes some bytes. -/
def transOneShard (bytes : Nat) : List TransEvent :=
  [.submit 1 .dump [⟨6, 0, [30]⟩], .dump 0 { }, .dump 0 { }, .dump 0 { },
    .dump 0 { bytes := bytes, result := some true }, .dump 0 { }, .done ⟨.dump, 0, (1, 1)⟩] ++
  List.replicate 3 (.wait (1, 1) false)

/-- The kernel writes both bytes. -/
theorem ok_transferred_both_bytes :
    ∃ s, (transMachine .small).Reachable s ∧ s.wait (1, 1) = .returned .ok ∧
      (∃ u ∈ s.dump.units, u.task = (1, 1)) ∧
      ∀ u ∈ s.dump.units, u.task = (1, 1) →
        DumpConfig.small.Transferred u.proc u.shard u.written := by
  obtain ⟨s, hs, hp⟩ := Machine.exists_reachable_of_run (M := transMachine .small) (s := .start)
    (l := transOneShard 2) (p := fun s => s.wait (1, 1) = .returned .ok ∧ s.loads = [] ∧
      (∃ u ∈ s.dump.units, u.task = (1, 1)) ∧ ∀ u ∈ s.dump.units, u.shard = ⟨6, 0, [30]⟩ ∧
        u.written = 2) rfl (by decide +kernel)
  obtain ⟨hwait, hloads, hsome, hunits⟩ := hp
  refine ⟨s, hs, hwait, hsome, ((ok_transferred_iff hs hwait).mpr fun _ => ⟨?_, ?_⟩).1⟩
  · intro u hu _
    obtain ⟨hshard, hwritten⟩ := hunits u hu
    rw [hshard]
    exact ⟨by unfold DumpConfig.Adjacent; decide, hwritten⟩
  · rw [hloads]
    nofun

/-- The kernel writes one of two bytes without an error: the task is reported OK. -/
theorem ok_not_transferred :
    ∃ s, (transMachine .small).Reachable s ∧ s.wait (1, 1) = .returned .ok ∧
      ∃ u ∈ s.dump.units, u.task = (1, 1) ∧
        ¬DumpConfig.small.Transferred u.proc u.shard u.written := by
  obtain ⟨s, hs, hp⟩ := Machine.exists_reachable_of_run (M := transMachine .small) (s := .start)
    (l := transOneShard 1) (p := fun s => s.wait (1, 1) = .returned .ok ∧ ∃ u ∈ s.dump.units,
      u.task = (1, 1) ∧ u.proc = 1 ∧ u.written = 1) rfl (by decide +kernel)
  obtain ⟨hwait, u, hu, hut, hproc, hwritten⟩ := hp
  refine ⟨s, hs, hwait, u, hu, hut, fun h => ?_⟩
  rw [hproc, hwritten, transferred_aio rfl (by decide)] at h
  exact absurd h.2 (by decide)

end UnifiedCache.Posix
