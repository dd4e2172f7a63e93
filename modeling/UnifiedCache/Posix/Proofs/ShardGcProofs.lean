import UnifiedCache.Posix.ShardGc
import UnifiedCache.Infra.Proofs.TopNHeapProofs

/-!
# Proofs: the garbage collector of the posix store

A round removes a fixed number of files of every shard, which only depends on how many there are.
After a round in which no shard reached the cap the collector looks at the average again; after any
other round it goes on without looking.
-/

open Lib UnifiedCache.Infra

namespace UnifiedCache.Posix

variable {cfg : GcConfig} {s s' : GcState} {shard shard' : List FileInfo}
variable {shards shards' : List (List FileInfo)}

/-! ## One shard -/

/-- **`GetOldestFiles`** gives as many blocks of the shard as the percentage and the cap say, none
twice. -/
theorem getOldestFiles_spec {l : List BlockId} (h : getOldestFiles cfg shard = some l) :
    l.length = recycled cfg shard.length ∧ l.Subperm (shard.map FileInfo.blockId) := by
  unfold getOldestFiles at h
  dsimp only at h
  split_ifs at h with hzero hnone hsize
  · cases h
    rw [hzero]
    simp [recycled, List.nil_subperm]
  · cases h
    simp [recycled, hnone, List.nil_subperm]
  · generalize hheap : shard.foldl (fun heap file => heap.push mtimeComparator file)
      (TopNHeap.new cfg.posixGcMaxRecycleCountPerShard) = heap at h hsize
    have hf : heap.Filled shard := by
      rw [← hheap]
      exact (TopNHeap.filled_foldl _ _ shard).1
    obtain ⟨heap', hpop, hval, hlen, hsub⟩ := TopNHeap.popN_spec mtimeComparator
      (n := heap.idx.size - min ⌊(shard.length : ℚ) * cfg.posixGcRecyclePercent⌋₊
        cfg.posixGcMaxRecycleCountPerShard) (h := heap) (by omega)
    rw [hpop] at h
    cases h
    obtain ⟨hlive, hvals⟩ := hf.live_subperm hval hsub
    have hdrain := TopNHeap.drain_perm mtimeComparator hlive (Nat.le_refl _)
    constructor
    · rw [List.length_map, hdrain.length_eq, hlive.length, hlen, recycled]
      omega
    · obtain ⟨m, hperm, hsubl⟩ := hvals
      exact (hdrain.map _).subperm.trans ⟨m.map _, hperm.map _, hsubl.map _⟩

theorem foldl_removeFile (shard : List FileInfo) (l : List BlockId) :
    l.foldl removeFile shard = shard.filter fun file => file.blockId ∉ l := by
  induction l generalizing shard with
  | nil => simp
  | cons b l ih =>
    rw [List.foldl_cons, ih, removeFile, List.filter_filter]
    refine List.filter_congr fun file _ => ?_
    by_cases hb : file.blockId = b <;> simp [hb]

theorem length_foldl_removeFile {l : List BlockId} (hnd : (shard.map FileInfo.blockId).Nodup)
    (hl : l.Subperm (shard.map FileInfo.blockId)) :
    (l.foldl removeFile shard).length + l.length = shard.length := by
  have hlnd : l.Nodup := by
    obtain ⟨m, hperm, hsub⟩ := hl
    exact hperm.nodup_iff.mp (hnd.sublist hsub)
  have hperm : ((shard.map FileInfo.blockId).filter fun b => b ∈ l).Perm l := by
    refine (List.perm_ext_iff_of_nodup (hnd.filter _) hlnd).mpr fun b => ?_
    rw [List.mem_filter, decide_eq_true_eq]
    exact ⟨And.right, fun hb => ⟨hl.subset hb, hb⟩⟩
  have hgone : (shard.filter fun file => file.blockId ∈ l).length = l.length := by
    rw [← hperm.length_eq, List.filter_map, List.length_map]
    rfl
  have hsplit := List.length_eq_length_filter_add (l := shard) fun file => decide (file.blockId ∈ l)
  rw [foldl_removeFile]
  have hkeep : (shard.filter fun file => decide (file.blockId ∉ l)) =
      shard.filter fun file => !decide (file.blockId ∈ l) :=
    List.filter_congr fun file _ => by simp
  rw [hkeep]
  omega

/-- **`ProcessTask` on one shard.** -/
theorem processGc_spec {limited : Bool} (hnd : (shard.map FileInfo.blockId).Nodup)
    (h : processGc cfg shard = some (shard', limited)) :
    shard'.length + recycled cfg shard.length = shard.length ∧
      (shard'.map FileInfo.blockId).Nodup ∧
      limited = decide (cfg.posixGcMaxRecycleCountPerShard ≤ recycled cfg shard.length) := by
  obtain ⟨l, hl, heq⟩ := Option.map_eq_some_iff.mp h
  obtain ⟨hlen, hsub⟩ := getOldestFiles_spec hl
  cases heq
  refine ⟨?_, ?_, by rw [hlen]⟩
  · rw [← hlen]
    exact length_foldl_removeFile hnd hsub
  · rw [foldl_removeFile]
    exact hnd.sublist (List.filter_sublist.map _)

/-! ## One round -/

/-- **`Execute`**: what a round leaves in the shards, and when it says that a cap was reached. -/
theorem execute_spec {limited : Bool} (hnd : ∀ shard ∈ shards, (shard.map FileInfo.blockId).Nodup)
    (h : execute cfg shards = some (shards', limited)) :
    shards'.length = shards.length ∧ (∀ shard ∈ shards', (shard.map FileInfo.blockId).Nodup) ∧
      totalFiles shards' + (shards.map fun shard => recycled cfg shard.length).sum =
        totalFiles shards ∧
      (limited = true ↔ ∃ shard ∈ shards,
        cfg.posixGcMaxRecycleCountPerShard ≤ recycled cfg shard.length) := by
  obtain ⟨done, hdone, heq⟩ := Option.map_eq_some_iff.mp h
  cases heq
  clear h
  induction shards generalizing done with
  | nil =>
    cases hdone
    simp [totalFiles]
  | cons shard shards ih =>
    rw [List.mapM_cons] at hdone
    simp only [Option.bind_eq_bind, Option.bind_eq_some_iff, Option.pure_def, Option.some.injEq] at hdone
    obtain ⟨⟨shard', lim⟩, hone, rest, hrest, rfl⟩ := hdone
    obtain ⟨h1, h2, h3⟩ := processGc_spec (hnd shard (by simp)) hone
    obtain ⟨i1, i2, i3, i4⟩ := ih (fun x hx => hnd x (List.mem_cons_of_mem _ hx)) rest hrest
    refine ⟨?_, ?_, ?_, ?_⟩
    · simpa using i1
    · intro x hx
      rcases List.mem_cons.mp hx with rfl | hx
      · exact h2
      · exact i2 x hx
    · simp only [totalFiles, List.map_cons, List.sum_cons] at i3 ⊢
      omega
    · rw [List.any_cons, Bool.or_eq_true, i4, h3, decide_eq_true_eq]
      simp

/-! ## The average -/

theorem nShard_pos (cfg : GcConfig) : 0 < cfg.nShard := by
  unfold GcConfig.nShard
  split
  · exact Nat.two_pow_pos _
  · exact Nat.one_pos

theorem threshold_le_iff (hlen : shards.length = cfg.nShard) :
    cfg.threshold ≤ avgFilesPerShard shards (List.range cfg.nShard) ↔
      cfg.threshold * cfg.nShard ≤ totalFiles shards := by
  have hsum : ((List.range cfg.nShard).map fun i => (shards[i]?.getD []).length) =
      shards.map List.length := by
    rw [← hlen]
    refine List.ext_getElem (by simp) fun i hi hi' => ?_
    have hi'' : i < shards.length := by simpa using hi'
    simp [List.getElem?_eq_getElem hi'']
  rw [avgFilesPerShard, hsum, List.length_range]
  exact Nat.le_div_iff_mul_le (nShard_pos cfg)

/-! ## Runs -/

/-- **The invariant**: before a round there are files enough for the trigger. -/
structure GcInv (cfg : GcConfig) (s : GcState) : Prop where
  shards : ShardsOk cfg s.shards
  execute : s.pc = .execute → cfg.threshold * cfg.nShard ≤ totalFiles s.shards

theorem GcInv.loop (h : ShardsOk cfg s.shards) {trigger : Bool}
    (ht : s.stop = false → trigger = true → cfg.threshold * cfg.nShard ≤ totalFiles s.shards) :
    GcInv cfg (s.loop trigger) := by
  refine ⟨h, fun hpc => ?_⟩
  simp only [GcState.loop] at hpc
  split_ifs at hpc with hstop htrigger
  exact ht (Bool.eq_false_iff.mpr hstop) htrigger

theorem GcInv.trigger (h : ShardsOk cfg s.shards) {sample : List Nat}
    (hratio : cfg.posixGcShardSampleRatio = 1) (hsample : SampleOk cfg sample) :
    GcInv cfg (s.loop (shouldTrigger cfg s.shards sample)) := by
  refine GcInv.loop h fun _ ht => ?_
  rw [SampleOk, if_pos hratio] at hsample
  rw [shouldTrigger, hsample, decide_eq_true_eq, threshold_le_iff h.1] at ht
  exact ht

/-- **The next step of the collector keeps the invariant.** -/
theorem GcInv.gcStep (h : GcInv cfg s) (hratio : cfg.posixGcShardSampleRatio = 1)
    {sample : List Nat} (hC : WithinTrigger cfg s (.gc sample))
    (hstep : s.gcStep cfg sample = some s') : GcInv cfg s' := by
  unfold GcState.gcStep at hstep
  split at hstep
  · split_ifs at hstep with hstop hsample
    · cases hstep
      exact ⟨h.shards, fun hpc => by cases hpc⟩
    · cases hstep
      exact GcInv.trigger h.shards hratio hsample
  · rename_i hpc
    split at hstep
    · cases hstep
    · rename_i shards limited hexec
      obtain ⟨hlen, hnd, htotal, hlimited⟩ := execute_spec h.shards.2 hexec
      have hok : ShardsOk cfg shards := ⟨hlen.trans h.shards.1, hnd⟩
      dsimp only at hstep
      split_ifs at hstep with hl
      · cases hstep
        refine GcInv.loop (s := { s with shards := shards }) hok fun hstop _ => ?_
        have hle := hC hpc hstop (hlimited.mp hl)
        change cfg.threshold * cfg.nShard ≤ totalFiles shards
        omega
      · cases hstep
        exact ⟨hok, fun hpc => by cases hpc⟩
  · split_ifs at hstep with hsample
    cases hstep
    exact GcInv.trigger h.shards hratio hsample
  · cases hstep
    refine ⟨h.shards, fun hpc => ?_⟩
    dsimp only at hpc
    split_ifs at hpc
  · cases hstep

theorem shardsOk_write (h : ShardsOk cfg shards) (i : Nat) (file : FileInfo) :
    ShardsOk cfg (shards.set i (file :: removeFile (shards[i]?.getD []) file.blockId)) := by
  refine ⟨by rw [List.length_set]; exact h.1, fun shard hs => ?_⟩
  rcases List.mem_or_eq_of_mem_set hs with hs | rfl
  · exact h.2 shard hs
  · rw [List.map_cons, List.nodup_cons]
    have hold : ((shards[i]?.getD []).map FileInfo.blockId).Nodup := by
      cases hi : shards[i]? with
      | none => simp
      | some x => exact h.2 x (List.mem_of_getElem? hi)
    refine ⟨?_, hold.sublist (List.filter_sublist.map _)⟩
    simp [removeFile]

theorem gcInv_reach (hratio : cfg.posixGcShardSampleRatio = 1)
    (h : (gcMachine cfg).Reach (WithinTrigger cfg) s) : GcInv cfg s := by
  refine h.inv (fun s hs => ?_) fun s e s' hs hC hstep => ?_
  · obtain ⟨-, hok, hpc, -⟩ := hs
    exact ⟨hok, fun hc => by rw [hpc] at hc; cases hc⟩
  · cases e with
    | gc sample => exact hs.gcStep hratio hC hstep
    | write i file =>
      simp only [gcMachine, GcState.step] at hstep
      split_ifs at hstep with hsleep
      cases hstep
      exact ⟨shardsOk_write hs.shards i file, fun hpc => by rw [hsleep.1] at hpc; cases hpc⟩
    | stop =>
      cases hstep
      exact ⟨hs.shards, hs.execute⟩

/-- **The collector stays above its trigger**, in every run in which a round that reaches the cap of a
shard leaves the average at the threshold or above: every round starts at the threshold or above. -/
theorem gc_within_trigger (cfg : GcConfig) (hratio : cfg.posixGcShardSampleRatio = 1) (s : GcState)
    (h : (gcMachine cfg).Reach (WithinTrigger cfg) s) (hpc : s.pc = .execute) :
    cfg.threshold ≤ avgFilesPerShard s.shards (List.range cfg.nShard) := by
  have hi := gcInv_reach hratio h
  rw [threshold_le_iff hi.shards.1]
  exact hi.execute hpc

/-- One shard for 16 blocks of 64 MiB, a threshold of 11 files, and at most `cap` files a round. -/
def GcConfig.sixteen (cap : Nat) : GcConfig where
  storageBackends := ["/data/"]
  deviceId := 0
  lookupConcurrency := 8
  dataDirShardBytes := 0
  cpuAffinityCores := []
  tensorSize := 67108864
  shardSize := 67108864
  blockSize := 67108864
  ioEngine := "psync"
  openConcurrency := 1
  commitConcurrency := 1
  dataTransConcurrency := 8
  posixGcEnable := true
  posixCapacityGb := 1
  posixGcRecyclePercent := 1 / 10
  posixGcConcurrency := 16
  posixGcCheckIntervalSec := 30
  posixGcTriggerThresholdRatio := 7 / 10
  posixGcMaxRecycleCountPerShard := cap
  posixGcShardSampleRatio := 1

/-- The collector before its first look at one shard with the files 0 to `n - 1`. -/
def GcState.files (n : Nat) : GcState := ⟨[(List.range n).map fun i => ⟨i, i⟩], .check, false⟩

theorem init_files (cap n : Nat) (hacc : (GcConfig.sixteen cap).Accepted) :
    (gcMachine (.sixteen cap)).init (.files n) := by
  refine ⟨hacc, ⟨rfl, fun shard hs => ?_⟩, rfl, rfl⟩
  rw [List.mem_singleton.mp hs, List.map_map]
  exact List.nodup_range.map fun i j hij => hij

/-- With a cap of one file thirteen files trigger a round that reaches the cap, and the next round
starts with twelve. -/
theorem gc_within_trigger_thirteen : ∃ s, (gcMachine (.sixteen 1)).Reachable s ∧
    s.shards.map List.length = [12] ∧ s.pc = .execute ∧
      (GcConfig.sixteen 1).threshold ≤
        avgFilesPerShard s.shards (List.range (GcConfig.sixteen 1).nShard) := by
  have hacc : (GcConfig.sixteen 1).Accepted := by decide +kernel
  obtain ⟨s, hr, hp⟩ := Machine.exists_reach_of_run (M := gcMachine (.sixteen 1))
    (C := WithinTrigger (.sixteen 1)) (s := .files 13) (l := [.gc [0], .gc []])
    (p := fun s => s.shards.map List.length = [12] ∧ s.pc = .execute) (init_files 1 13 hacc)
    (by decide +kernel)
  exact ⟨s, hr.reachable, hp.1, hp.2, gc_within_trigger (.sixteen 1) rfl s hr hp.2⟩

/-- Eleven files trigger the collector. With a cap of one file the second round starts with ten. -/
theorem gc_below_trigger : ∃ s, (gcMachine (.sixteen 1)).Reachable s ∧ s.pc = .execute ∧
    avgFilesPerShard s.shards (List.range (GcConfig.sixteen 1).nShard) <
      (GcConfig.sixteen 1).threshold := by
  have hacc : (GcConfig.sixteen 1).Accepted := by decide +kernel
  obtain ⟨s, hs, hp⟩ := Machine.exists_reachable_of_run (M := gcMachine (.sixteen 1))
    (s := .files 11) (l := [.gc [0], .gc []]) (p := fun s => s.pc = .execute ∧
      avgFilesPerShard s.shards (List.range (GcConfig.sixteen 1).nShard) < (GcConfig.sixteen 1).threshold)
    (init_files 1 11 hacc) (by decide +kernel)
  exact ⟨s, hs, hp⟩

end UnifiedCache.Posix
