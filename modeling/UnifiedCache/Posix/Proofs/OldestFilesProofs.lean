import UnifiedCache.Infra.Proofs.HeapSelectProofs
import UnifiedCache.Posix.Proofs.ShardGcProofs

/-!
# Proofs: the oldest files of a shard

The heap of `GetOldestFiles` keeps the oldest files and puts the newest of them on top, where the
surplus is popped. The capacity of the heap is the cap without its upper half, so a large cap makes
the heap smaller than the number of files to pop from it.
-/

open UnifiedCache.Infra

namespace UnifiedCache.Posix

variable {cfg : GcConfig} {shard : List FileInfo}

instance : IsStrictWeakOrder FileInfo fun lhs rhs => mtimeComparator lhs rhs = true where
  irrefl file h := absurd (of_decide_eq_true h) (Int.lt_irrefl _)
  trans a b c hab hbc :=
    decide_eq_true (Int.lt_trans (of_decide_eq_true hbc) (of_decide_eq_true hab))
  incomp_trans a b c hab hbc := by
    simp only [mtimeComparator, decide_eq_true_eq] at hab hbc ⊢
    omega

theorem scan_size (cfg : GcConfig) (shard : List FileInfo) :
    (shard.foldl (fun heap file => heap.push mtimeComparator file)
      (TopNHeap.new cfg.posixGcMaxRecycleCountPerShard)).idx.size = heapSize cfg shard.length := by
  obtain ⟨hf, hcap⟩ := TopNHeap.filled_foldl mtimeComparator
    cfg.posixGcMaxRecycleCountPerShard shard
  rw [hf.idx_size, hf.size, hcap, heapSize]

/-- **`GetOldestFiles` stays within its heap** if and only if the heap has as many entries as there are
files to recycle. -/
theorem getOldestFiles_eq_none_iff :
    getOldestFiles cfg shard = none ↔ heapSize cfg shard.length < recycled cfg shard.length := by
  unfold getOldestFiles
  dsimp only
  rw [scan_size]
  by_cases hzero : shard.length = 0
  · rw [if_pos hzero, hzero]
    simp [recycled, heapSize]
  · rw [if_neg hzero]
    by_cases hnone : ⌊(shard.length : ℚ) * cfg.posixGcRecyclePercent⌋₊ = 0
    · rw [if_pos hnone]
      simp [recycled, hnone]
    · rw [if_neg hnone]
      by_cases hsize : heapSize cfg shard.length <
          min ⌊(shard.length : ℚ) * cfg.posixGcRecyclePercent⌋₊ cfg.posixGcMaxRecycleCountPerShard
      · rw [if_pos hsize]
        exact iff_of_true rfl hsize
      · rw [if_neg hsize]
        refine iff_of_false ?_ hsize
        obtain ⟨heap, hpop, -⟩ := TopNHeap.popN_spec mtimeComparator
          (n := heapSize cfg shard.length -
            min ⌊(shard.length : ℚ) * cfg.posixGcRecyclePercent⌋₊ cfg.posixGcMaxRecycleCountPerShard)
          (h := shard.foldl (fun heap file => heap.push mtimeComparator file)
            (TopNHeap.new cfg.posixGcMaxRecycleCountPerShard))
          (by rw [scan_size]; exact Nat.sub_le _ _)
        rw [hpop]
        exact Option.some_ne_none _

/-- **The blocks that are selected are the oldest**: the files that stay are those the heap gave
away. -/
theorem getOldestFiles_oldest {l : List BlockId} (hnd : (shard.map FileInfo.blockId).Nodup)
    (hsize : recycled cfg shard.length = 0 ∨ SiftsSmall cfg shard)
    (h : getOldestFiles cfg shard = some l) :
    ∀ file ∈ shard, file.blockId ∈ l →
      ∀ other ∈ shard, other.blockId ∉ l → file.mtime ≤ other.mtime := by
  have hinj : ∀ f ∈ shard, ∀ g ∈ shard, f.blockId = g.blockId → f = g :=
    fun f hf g hg => List.inj_on_of_nodup_map hnd hf hg
  unfold getOldestFiles at h
  dsimp only at h
  split_ifs at h with hzero hnone hfit
  · cases h
    intro file _ hin
    cases hin
  · cases h
    intro file _ hin
    cases hin
  · obtain ⟨heap, hpop, heq⟩ := Option.map_eq_some_iff.mp h
    cases heq
    rw [scan_size] at hpop
    have hsifts : SiftsSmall cfg shard := hsize.elim (fun hrecycled => by
      have hcap : cfg.posixGcMaxRecycleCountPerShard = 0 :=
        (Nat.min_eq_zero_iff.mp hrecycled).resolve_left hnone
      constructor <;> simp [heapSize, hcap]) id
    obtain ⟨hfull, hsurplus⟩ := hsifts
    obtain ⟨rest, hk⟩ := TopNHeap.keeps_foldl mtimeComparator
      cfg.posixGcMaxRecycleCountPerShard shard
      (hfull.imp_right fun h x hx y hy => decide_eq_false (Int.not_lt.mpr (h x hx y hy)))
    obtain ⟨rest', hk'⟩ : ∃ rest', heap.Keeps mtimeComparator shard rest' := by
      rcases hsurplus with hsmall | hnone
      · exact hk.popN hpop (by rw [scan_size]; exact hsmall)
      · rw [hnone, recycled, Nat.sub_self] at hpop
        cases hpop
        exact ⟨rest, hk⟩
    have hdrain := TopNHeap.drain_perm mtimeComparator hk'.inv.leads (Nat.le_refl _)
    intro file hfile hin other hother hout
    obtain ⟨kept, hkept, hid⟩ := List.mem_map.mp hin
    have hlive := hdrain.mem_iff.mp hkept
    have hmem : kept ∈ shard := hk'.split.mem_iff.mp (List.mem_append_left _ hlive)
    rw [← hinj kept hmem file hfile hid]
    have hrest : other ∈ rest' := by
      rcases List.mem_append.mp (hk'.split.mem_iff.mpr hother) with hother | hother
      · exact absurd (List.mem_map_of_mem (hdrain.mem_iff.mpr hother)) hout
      · exact hother
    have hlast := hk'.last kept hlive other hrest
    exact Int.not_lt.mp (of_decide_eq_false hlast)

/-- One shard, of which a round may recycle all files, but at most `cap`. -/
def GcConfig.everything (cap : Nat) : GcConfig :=
  { GcConfig.sixteen cap with posixGcRecyclePercent := 1 }

end UnifiedCache.Posix
