import UnifiedCache.Posix.GcPass
import UnifiedCache.Posix.Proofs.OldestFilesProofs
import Mathlib.Algebra.Order.BigOperators.Group.List

/-!
# Proofs: a pass of the garbage collector

A `ShouldTrigger` that succeeds has found a shard with as many files as the threshold, and the check
of the configuration says that a round recycles a file of such a shard. So every round removes files,
and there are no more rounds than files.
-/

open Lib

namespace UnifiedCache.Posix

variable {cfg : GcConfig} {shards shards' : List (List FileInfo)} {s s' : GcPass} {n : Nat}

/-! ## Rounds -/

/-- The cap apart, a round recycles files of a shard of `n` files. -/
def Recyclable (cfg : GcConfig) (n : Nat) : Prop := 0 < ⌊(n : ℚ) * cfg.posixGcRecyclePercent⌋₊

theorem recycled_pos_iff :
    0 < recycled cfg n ↔ Recyclable cfg n ∧ 0 < cfg.posixGcMaxRecycleCountPerShard := by
  rw [recycled, Recyclable]
  omega

theorem execute_lengths {limited : Bool}
    (hnd : ∀ shard ∈ shards, (shard.map FileInfo.blockId).Nodup)
    (h : execute cfg shards = some (shards', limited)) :
    shards'.map List.length =
      shards.map fun shard => shard.length - recycled cfg shard.length := by
  obtain ⟨done, hdone, heq⟩ := Option.map_eq_some_iff.mp h
  cases heq
  clear h
  induction shards generalizing done with
  | nil =>
    cases hdone
    rfl
  | cons shard shards ih =>
    rw [List.mapM_cons] at hdone
    simp only [Option.bind_eq_bind, Option.bind_eq_some_iff, Option.pure_def, Option.some.injEq] at hdone
    obtain ⟨⟨shard', lim⟩, hone, rest, hrest, rfl⟩ := hdone
    obtain ⟨hlen, -, -⟩ := processGc_spec (hnd shard (by simp)) hone
    have hrec := ih (fun x hx => hnd x (List.mem_cons_of_mem _ hx)) rest hrest
    rw [List.map_cons, List.map_cons, List.map_cons, hrec]
    congr 1
    dsimp only
    omega

/-- **A round is done** if and only if every heap has as many entries as there are files to pop. -/
theorem execute_isSome : (execute cfg shards).isSome ↔
    ∀ shard ∈ shards, recycled cfg shard.length ≤ heapSize cfg shard.length := by
  rw [execute, Option.isSome_map]
  induction shards with
  | nil => simp
  | cons shard shards ih =>
    have hone : (processGc cfg shard).isSome ↔
        recycled cfg shard.length ≤ heapSize cfg shard.length := by
      rw [processGc, Option.isSome_map, ← Nat.not_lt, ← getOldestFiles_eq_none_iff,
        Option.isSome_iff_ne_none]
    rw [List.forall_mem_cons, ← hone, ← ih, List.mapM_cons]
    cases processGc cfg shard with
    | none => simp
    | some one =>
      cases List.mapM (processGc cfg) shards with
      | none => simp
      | some rest => simp

theorem execute_total {limited : Bool}
    (hnd : ∀ shard ∈ shards, (shard.map FileInfo.blockId).Nodup)
    (h : execute cfg shards = some (shards', limited)) :
    totalFiles shards - totalFiles shards' =
      (shards.map fun shard => recycled cfg shard.length).sum ∧
    totalFiles shards' ≤ totalFiles shards := by
  obtain ⟨-, -, htotal, -⟩ := execute_spec hnd h
  omega

/-! ## The trigger -/

variable {sample : List Nat}

theorem SampleOk.spec (h : SampleOk cfg sample) :
    0 < sample.length ∧ ∀ i ∈ sample, i < cfg.nShard := by
  unfold SampleOk at h
  split_ifs at h with hone
  · subst h
    refine ⟨?_, fun i hi => List.mem_range.mp hi⟩
    rw [List.length_range]
    exact nShard_pos cfg
  · obtain ⟨-, hlt, hlen⟩ := h
    exact ⟨by omega, hlt⟩

theorem exists_sampleOk (hratio : cfg.posixGcShardSampleRatio ≤ 1) : ∃ sample, SampleOk cfg sample := by
  unfold SampleOk
  split_ifs with hone
  · exact ⟨_, rfl⟩
  · refine ⟨List.range (max 1 ⌊(cfg.nShard : ℚ) * cfg.posixGcShardSampleRatio⌋₊),
      List.nodup_range, fun i hi => ?_, List.length_range⟩
    have hle : ⌊(cfg.nShard : ℚ) * cfg.posixGcShardSampleRatio⌋₊ ≤ cfg.nShard :=
      Nat.floor_le_of_le (mul_le_of_le_one_right (Nat.cast_nonneg _) hratio)
    have hpos := nShard_pos cfg
    have hi := List.mem_range.mp hi
    omega

theorem exists_average_le (l : List Nat) (hl : 0 < l.length) : ∃ n ∈ l, l.sum / l.length ≤ n := by
  by_contra hnot
  have hlt : ∀ n ∈ l, n < l.sum / l.length := by
    intro n hn
    by_contra hle
    exact hnot ⟨n, hn, Nat.le_of_not_lt hle⟩
  have hpos : 0 < l.sum / l.length := Nat.zero_lt_of_lt (hlt _ (List.getElem_mem hl))
  have hsum : l.sum ≤ l.length * (l.sum / l.length - 1) :=
    List.sum_le_card_nsmul l _ fun n hn => Nat.le_sub_one_of_lt (hlt n hn)
  have := Nat.div_le_of_le_mul hsum
  omega

/-- **A trigger has found a shard with files to recycle.** -/
theorem trigger_recyclable (hvalid : cfg.validate = true) (hlen : shards.length = cfg.nShard)
    (hsample : SampleOk cfg sample) (h : shouldTrigger cfg shards sample = true) :
    ∃ shard ∈ shards, Recyclable cfg shard.length := by
  obtain ⟨hne, hlt⟩ := hsample.spec
  obtain ⟨n, hn, havg⟩ := exists_average_le
    (sample.map fun i => (shards[i]?.getD []).length) (by simpa using hne)
  obtain ⟨i, hi, rfl⟩ := List.mem_map.mp hn
  have hin : i < shards.length := by
    rw [hlen]
    exact hlt i hi
  refine ⟨shards[i], List.getElem_mem hin, ?_⟩
  rw [List.getElem?_eq_getElem hin, Option.getD_some, List.length_map] at havg
  have hthreshold : cfg.threshold ≤ shards[i].length := (of_decide_eq_true h).trans havg
  have hpos : 0 < ⌊(cfg.threshold : ℚ) * cfg.posixGcRecyclePercent⌋₊ := of_decide_eq_true hvalid
  have hpercent : 0 ≤ cfg.posixGcRecyclePercent := by
    by_contra hneg
    have hprod := mul_nonpos_of_nonneg_of_nonpos (Nat.cast_nonneg (α := ℚ) cfg.threshold)
      (le_of_lt (not_le.mp hneg))
    rw [Nat.floor_of_nonpos hprod] at hpos
    exact Nat.lt_irrefl 0 hpos
  refine Nat.lt_of_lt_of_le hpos (Nat.floor_le_floor ?_)
  exact mul_le_mul_of_nonneg_right (Nat.cast_le.mpr hthreshold) hpercent

/-! ## Passes -/

/-- **What a step of a pass can do.** -/
theorem GcPass.step_cases (h : s.step cfg sample = some s') (hstop : s.gc.stop = false)
    (hpc : s.gc.pc ≠ .stopped) :
    (s.gc.pc ≠ .execute ∧ SampleOk cfg sample ∧ s' = { s with
      gc := { s.gc with pc := if shouldTrigger cfg s.gc.shards sample then .execute else .sleep }
      avgFiles := avgFilesPerShard s.gc.shards sample }) ∨
    (s.gc.pc = .execute ∧ ∃ shards limited, execute cfg s.gc.shards = some (shards, limited) ∧
      s' = { s with
        gc := { s.gc with shards := shards, pc := if limited then .execute else .recheck }
        removed := s.removed ++ [totalFiles s.gc.shards - totalFiles shards] }) := by
  obtain ⟨⟨shards, pc, stop⟩, removed, avg⟩ := s
  cases hstop
  cases pc with
  | sleep => cases h
  | stopped => exact absurd rfl hpc
  | check | recheck =>
    obtain ⟨gc, hgc, rfl⟩ := Option.map_eq_some_iff.mp h
    simp only [GcState.gcStep, Bool.false_eq_true, if_false] at hgc
    split_ifs at hgc with hsample
    cases hgc
    exact .inl ⟨(by intro hc; cases hc), hsample, rfl⟩
  | execute =>
    obtain ⟨gc, hgc, rfl⟩ := Option.map_eq_some_iff.mp h
    simp only [GcState.gcStep] at hgc
    split at hgc
    · cases hgc
    · rename_i shards' limited hexec
      refine .inr ⟨rfl, shards', limited, hexec, ?_⟩
      cases limited with
      | false =>
        cases hgc
        rfl
      | true =>
        cases hgc
        rfl

/-- **A step is possible** wherever the pass has not ended, unless a round pops too many files. -/
theorem GcPass.exists_step (hsample : SampleOk cfg sample) (hstop : s.gc.stop = false)
    (hpc : s.gc.pc ≠ .stopped) (hsleep : s.gc.pc ≠ .sleep) (hfits : s.gc.pc = .execute →
      ∀ shard ∈ s.gc.shards, recycled cfg shard.length ≤ heapSize cfg shard.length) :
    ∃ s', s.step cfg sample = some s' := by
  obtain ⟨⟨shards, pc, stop⟩, removed, avg⟩ := s
  cases hstop
  cases pc with
  | sleep => exact absurd rfl hsleep
  | stopped => exact absurd rfl hpc
  | check | recheck =>
    refine Option.isSome_iff_exists.mp ?_
    rw [GcPass.step, if_neg hsleep, if_neg (by intro hc; cases hc), Option.isSome_map]
    simp only [GcState.gcStep, Bool.false_eq_true, if_false, if_pos hsample]
    rfl
  | execute =>
    obtain ⟨⟨shards', limited⟩, hexec⟩ := Option.isSome_iff_exists.mp
      (execute_isSome.mpr (hfits rfl))
    refine Option.isSome_iff_exists.mp ?_
    rw [GcPass.step, if_neg hsleep, if_pos rfl, Option.isSome_map]
    simp only [GcState.gcStep, hexec]
    cases limited with
    | false => rfl
    | true => rfl

/-- **The invariant of a pass** over `shards`. -/
structure PassInv (cfg : GcConfig) (shards : List (List FileInfo)) (s : GcPass) : Prop where
  ok : ShardsOk cfg s.gc.shards
  stop : s.gc.stop = false
  pc : s.gc.pc ≠ .stopped
  removed : ∀ n ∈ s.removed, 0 < n
  total : s.removed.sum + totalFiles s.gc.shards = totalFiles shards
  execute : s.gc.pc = .execute → ∃ shard ∈ s.gc.shards, Recyclable cfg shard.length
  sleep : s.gc.pc = .sleep → s.avgFiles < cfg.threshold

theorem passInv_start (hok : ShardsOk cfg shards) : PassInv cfg shards (.start shards) where
  ok := hok
  stop := rfl
  pc h := by cases h
  removed n hn := by cases hn
  total := Nat.zero_add _
  execute h := by cases h
  sleep h := by cases h

theorem PassInv.trigger (hi : PassInv cfg shards s) (hvalid : cfg.validate = true)
    (hsample : SampleOk cfg sample) : PassInv cfg shards { s with
      gc := { s.gc with pc := if shouldTrigger cfg s.gc.shards sample then .execute else .sleep }
      avgFiles := avgFilesPerShard s.gc.shards sample } := by
  by_cases ht : shouldTrigger cfg s.gc.shards sample = true
  · refine { hi with pc := ?_, execute := fun _ => ?_, sleep := fun hc => ?_ }
    · simp [ht]
    · exact trigger_recyclable hvalid hi.ok.1 hsample ht
    · simp [ht] at hc
  · refine { hi with pc := ?_, execute := fun hc => ?_, sleep := fun _ => ?_ }
    · simp [ht]
    · simp [ht] at hc
    · exact Nat.lt_of_not_le fun hle => ht (decide_eq_true hle)

theorem PassInv.cap_pos (hi : PassInv cfg shards s) (hpc : s.gc.pc = .execute)
    (hcont : s.Continues cfg) : 0 < cfg.posixGcMaxRecycleCountPerShard := by
  obtain ⟨shard, hs, -⟩ := hi.execute hpc
  by_contra hzero
  obtain ⟨other, -, hpos⟩ := hcont ⟨shard, hs, by omega⟩
  exact hzero (recycled_pos_iff.mp hpos).2

/-- **A round of the pass.** -/
theorem PassInv.round (hi : PassInv cfg shards s) (hpc : s.gc.pc = .execute)
    (hcont : s.Continues cfg) {limited : Bool}
    (hexec : UnifiedCache.Posix.execute cfg s.gc.shards = some (shards', limited)) :
    PassInv cfg shards { s with
      gc := { s.gc with shards := shards', pc := if limited then .execute else .recheck }
      removed := s.removed ++ [totalFiles s.gc.shards - totalFiles shards'] } := by
  obtain ⟨hlen, hnd, htotal, hlimited⟩ := execute_spec hi.ok.2 hexec
  have hcap := hi.cap_pos hpc hcont
  obtain ⟨shard, hs, hrec⟩ := hi.execute hpc
  have hpos : 0 < (s.gc.shards.map fun shard => recycled cfg shard.length).sum := by
    refine Nat.lt_of_lt_of_le (recycled_pos_iff.mpr ⟨hrec, hcap⟩) ?_
    exact List.single_le_sum (fun _ _ => Nat.zero_le _) _ (List.mem_map.mpr ⟨shard, hs, rfl⟩)
  refine ⟨⟨hlen.trans hi.ok.1, hnd⟩, hi.stop, ?_, fun n hn => ?_, ?_, fun hc => ?_,
    fun hc => ?_⟩
  · dsimp only
    split_ifs
    · intro hc
      cases hc
    · intro hc
      cases hc
  · rcases List.mem_append.mp hn with hn | hn
    · exact hi.removed n hn
    · rw [List.mem_singleton.mp hn]
      omega
  · have := hi.total
    rw [List.sum_append, List.sum_singleton]
    dsimp only
    omega
  · dsimp only at hc
    split_ifs at hc with hl
    -- the round has reached the cap
    obtain ⟨other, hother, hleft⟩ := hcont (hlimited.mp hl)
    have hmem : other.length - recycled cfg other.length ∈ shards'.map List.length := by
      rw [execute_lengths hi.ok.2 hexec]
      exact List.mem_map.mpr ⟨other, hother, rfl⟩
    obtain ⟨left, hin, heq⟩ := List.mem_map.mp hmem
    refine ⟨left, hin, ?_⟩
    rw [heq]
    exact (recycled_pos_iff.mp hleft).1
  · dsimp only at hc
    split_ifs at hc

/-- **A step of the pass.** -/
theorem PassInv.step (hi : PassInv cfg shards s) (hvalid : cfg.validate = true)
    (hC : s.Recycles cfg) (h : s.step cfg sample = some s') :
    PassInv cfg shards s' := by
  rcases GcPass.step_cases h hi.stop hi.pc with
    ⟨-, hsample, rfl⟩ | ⟨hpc, shards', limited, hexec, rfl⟩
  · exact hi.trigger hvalid hsample
  · exact hi.round hpc (hC hpc).2 hexec

theorem round_nothing (hnd : ∀ shard ∈ shards, (shard.map FileInfo.blockId).Nodup)
    (hnone : ∀ shard ∈ shards, recycled cfg shard.length = 0) {limited : Bool}
    (hexec : execute cfg shards = some (shards', limited)) :
    totalFiles shards - totalFiles shards' = 0 := by
  rw [(execute_total hnd hexec).1, List.sum_eq_zero]
  intro n hn
  obtain ⟨shard, hs, rfl⟩ := List.mem_map.mp hn
  exact hnone shard hs

theorem PassInv.stall (hi : PassInv cfg shards s) (hpc : s.gc.pc = .execute)
    (hcont : ¬ s.Continues cfg) {sample' : List Nat} {s'' : GcPass}
    (h : s.step cfg sample = some s') (h' : s'.step cfg sample' = some s'') :
    s''.removed = s'.removed ++ [0] := by
  obtain ⟨hlimited, hnot⟩ := Classical.not_imp.mp hcont
  rcases GcPass.step_cases h hi.stop hi.pc with ⟨hne, -⟩ | ⟨-, shards', limited, hexec, rfl⟩
  · exact absurd hpc hne
  · obtain ⟨hlen, hnd, -, hiff⟩ := execute_spec hi.ok.2 hexec
    rw [if_pos (hiff.mpr hlimited)] at h' ⊢
    rcases GcPass.step_cases h' hi.stop (by intro hc; cases hc) with
      ⟨hne, -⟩ | ⟨-, shards'', limited', hexec', rfl⟩
    · exact absurd rfl hne
    · dsimp only at hexec' ⊢
      rw [round_nothing hnd (fun shard hs => ?_) hexec']
      by_contra hpos
      have hmem : shard.length ∈ shards'.map List.length := List.mem_map_of_mem hs
      rw [execute_lengths hi.ok.2 hexec] at hmem
      obtain ⟨other, hother, heq⟩ := List.mem_map.mp hmem
      refine hnot ⟨other, hother, ?_⟩
      rw [heq]
      exact Nat.pos_of_ne_zero hpos

theorem PassInv.stepsLeft_lt (hi : PassInv cfg shards s) (hvalid : cfg.validate = true)
    (hC : s.Recycles cfg) (h : s.step cfg sample = some s') :
    s'.stepsLeft < s.stepsLeft := by
  have hi' := hi.step hvalid hC h
  have hsleep : s.gc.pc ≠ .sleep := by
    intro hc
    rw [GcPass.step, if_pos hc] at h
    cases h
  rcases GcPass.step_cases h hi.stop hi.pc with ⟨hne, -, rfl⟩ | ⟨hpc, shards', limited, hexec, rfl⟩
  · have hlook : s.gc.pc = .check ∨ s.gc.pc = .recheck := by
      cases hpc : s.gc.pc with
      | check => exact .inl rfl
      | recheck => exact .inr rfl
      | execute => exact absurd hpc hne
      | sleep => exact absurd hpc hsleep
      | stopped => exact absurd hpc hi.pc
    have hno : ¬ ((if shouldTrigger cfg s.gc.shards sample then GcPc.execute else .sleep) = .check ∨
        (if shouldTrigger cfg s.gc.shards sample then GcPc.execute else .sleep) = .recheck) := by
      split_ifs <;> simp
    rw [GcPass.stepsLeft, GcPass.stepsLeft, if_pos hlook, if_neg hno]
    exact Nat.lt_succ_self _
  · have hpos := hi'.removed _ (List.mem_append_right _ (List.mem_singleton_self _))
    rw [GcPass.stepsLeft, GcPass.stepsLeft, if_neg (c := s.gc.pc = .check ∨ s.gc.pc = .recheck)
      (by rw [hpc]; simp)]
    dsimp only
    split_ifs <;> omega

theorem passInv_reach (hvalid : cfg.validate = true) (hok : ShardsOk cfg shards)
    (hs : (passMachine cfg shards).Reach (fun s _ => s.Recycles cfg) s) : PassInv cfg shards s := by
  refine hs.inv ?_ ?_
  · rintro s rfl
    exact passInv_start hok
  · intro s sample s' hi hC hstep
    exact hi.step hvalid hC hstep

theorem length_le_sum {l : List Nat} (h : ∀ n ∈ l, 0 < n) : l.length ≤ l.sum := by
  have := List.card_nsmul_le_sum l 1 h
  simpa using this

/-- The scheduler's configuration, of which `CheckConfig` checks no ratio and no cap. -/
def GcConfig.uncapped : GcConfig := { GcConfig.sixteen 0 with deviceId := -1 }

theorem uncapped_rounds (k : Nat) : (passMachine .uncapped (GcState.files 11).shards).Reachable
    ⟨⟨(GcState.files 11).shards, .execute, false⟩, List.replicate k 0, 11⟩ := by
  induction k with
  | zero =>
    have hrun : (passMachine .uncapped (GcState.files 11).shards).run
        (.start (GcState.files 11).shards) [[0]] =
          some ⟨⟨(GcState.files 11).shards, .execute, false⟩, [], 11⟩ := by decide +kernel
    exact Machine.reachable_of_run rfl hrun
  | succ k ih =>
    have hexec : execute .uncapped (GcState.files 11).shards =
        some ((GcState.files 11).shards, true) := by decide +kernel
    refine .step (e := []) ih trivial ?_
    have htotal : totalFiles (GcState.files 11).shards - totalFiles (GcState.files 11).shards = 0 :=
      Nat.sub_self _
    simp only [passMachine, GcPass.step, GcState.gcStep, hexec, GcState.loop]
    rw [List.replicate_succ', ← htotal]
    rfl

end UnifiedCache.Posix
