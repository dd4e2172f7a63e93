import UnifiedCache.Cache.Alloc
import UnifiedCache.Cache.Proofs.BufferClientsProofs

/-!
# An allocation finds a free node

The cursor gets to every node of the caller's range within one cycle, wherever it starts. The first free
node there is taken: the lock of its old bucket cannot fail, since the caller's own bucket is not asked for
again, and the neighbours that are locked are other nodes.
-/

open Lib

namespace UnifiedCache.Cache

namespace TransBuffer

variable {cfg : BufferConfig} {s : TransBuffer} {blk : BlockId} {sh b i : Nat} {ar : Bool}

/-! ## One iteration -/

theorem allocLimit_pos (cfg : BufferConfig) (ar : Bool) : 0 < allocLimit cfg ar := by
  have := cfg.reserved_lt
  unfold allocLimit
  split <;> omega

theorem fetchNode_eq (s : TransBuffer) :
    s.fetchNode cfg ar =
      (if allocLimit cfg ar ≤ s.freeHead then 0 else s.freeHead,
        { s with freeHead := (if allocLimit cfg ar ≤ s.freeHead then 0 else s.freeHead) + 1 }) := rfl

theorem allocOnceAlone_used (h : 0 < (s.metaAt (s.fetchNode cfg ar).1).reference) :
    s.allocOnceAlone cfg blk sh b ar = (none, (s.fetchNode cfg ar).2) :=
  if_pos h

theorem Taken.of_cursor {s' : TransBuffer} {n : Nat}
    (h : Taken { s with freeHead := n } s' i blk sh) : s.Taken s' i blk sh :=
  ⟨h.free, h.reference, h.block, h.shard, h.ready, h.others⟩

theorem taken_moveTo (h : (s.metaAt i).reference = 0) :
    s.Taken ((s.moveTo b i).rekey i blk sh) i blk sh where
  free := h
  reference := by simp [rekey, moveTo_metaAt, h]
  block := by simp [rekey]
  shard := by simp [rekey]
  ready := by simp [rekey]
  others := by
    intro j hj
    simp [rekey, modify_metaAt, moveTo_metaAt, hj]

theorem allocOnceAlone_free (blk : BlockId) (sh b : Nat)
    (h : (s.metaAt (s.fetchNode cfg ar).1).reference = 0) :
    ∃ s', s.allocOnceAlone cfg blk sh b ar = (some (s.fetchNode cfg ar).1, s') ∧
      s.Taken s' (s.fetchNode cfg ar).1 blk sh := by
  have hfree : ¬ 0 < (s.metaAt (s.fetchNode cfg ar).1).reference := by omega
  unfold allocOnceAlone allocOnce
  rw [fetchNode_eq] at h hfree ⊢
  dsimp only at h hfree ⊢
  generalize (if allocLimit cfg ar ≤ s.freeHead then 0 else s.freeHead) = i at h hfree ⊢
  rw [if_neg hfree]
  rcases hhash : (s.metaAt i).hash with _ | oldBucket
  · exact ⟨_, rfl, (taken_moveTo (s := { s with freeHead := i + 1 }) h).of_cursor⟩
  · dsimp only [Option.all_some]
    by_cases hb : oldBucket = b
    · rw [if_pos hb]
      refine ⟨_, rfl, h, ?_, ?_, ?_, ?_, fun j hj => ?_⟩
      · simp [rekey, h]
      · simp [rekey]
      · simp [rekey]
      · simp [rekey]
      · simp [rekey, modify_metaAt, hj]
    · have hlock : bucketTryLock b oldBucket = true := decide_eq_true hb
      rw [if_neg hb, if_pos hlock]
      refine ⟨_, rfl, h, ?_, ?_, ?_, ?_, fun j hj => ?_⟩
      · simp [rekey, moveTo_metaAt, remove_metaAt, h]
      · simp [rekey]
      · simp [rekey]
      · simp [rekey]
      · simp [rekey, modify_metaAt, moveTo_metaAt, remove_metaAt, hj]

theorem RepInv.notMem_nestedLocks {chain : Nat → List Nat} (h : RepInv cfg s chain) (b i : Nat) :
    i ∉ s.nestedLocks b i := by
  have hhead : ∀ c, s.firstAt c = some i → (s.metaAt i).hash = some c := by
    intro c hc
    rw [(h.linked c).head] at hc
    exact (h.hash_iff c i).mpr (List.mem_of_head? hc)
  unfold nestedLocks
  split
  · rename_i hhash
    rw [Option.mem_toList]
    intro hc
    rw [hhead b hc] at hhash
    cases hhash
  · rename_i oldBucket hhash
    split
    · exact List.not_mem_nil
    · rename_i hb
      have hmem := (h.hash_iff oldBucket i).mp hhash
      simp only [List.mem_append, Option.mem_toList, not_or]
      refine ⟨⟨fun hp => ?_, fun hn => ?_⟩, fun hc => ?_⟩
      · exact ((h.linked oldBucket).prev_mem (h.nodup oldBucket) hmem hp).2 rfl
      · exact ((h.linked oldBucket).next_mem (h.nodup oldBucket) hmem hn).2 rfl
      · rw [remove_firstAt, if_neg (Ne.symm hb)] at hc
        have hb' := hhead b hc
        rw [hhash] at hb'
        exact hb (Option.some.inj hb')

/-! ## The cycle -/

/-- How far the cursor is from a node. -/
def distance (limit freeHead i : Nat) : Nat :=
  if limit ≤ freeHead then i else if freeHead ≤ i then i - freeHead else limit - freeHead + i

theorem distance_lt {limit f : Nat} (hi : i < limit) : distance limit f i < limit := by
  unfold distance
  split_ifs <;> omega

theorem distance_next {limit f : Nat} (hi : i < limit) (hne : (if limit ≤ f then 0 else f) ≠ i) :
    distance limit ((if limit ≤ f then 0 else f) + 1) i + 1 ≤ distance limit f i := by
  unfold distance
  split_ifs at hne ⊢ <;> omega

theorem RepInv.allocAlone_free {chain : Nat → List Nat} (h : RepInv cfg s chain) (blk : BlockId) (sh b : Nat)
    (hfree : (s.metaAt (s.fetchNode cfg ar).1).reference = 0) :
    ∃ s', (∀ more, s.allocAlone cfg blk sh b ar (1 + more) = (some (s.fetchNode cfg ar).1, s')) ∧
      s.Taken s' (s.fetchNode cfg ar).1 blk sh := by
  obtain ⟨s', hs', htaken⟩ := allocOnceAlone_free blk sh b hfree
  have hwait : ¬ s.waitsForItself cfg b ar := fun hc => h.notMem_nestedLocks b _ hc.2
  refine ⟨s', fun more => ?_, htaken⟩
  rw [Nat.add_comm 1 more, TransBuffer.allocAlone, if_neg hwait, hs']

theorem allocAlone_used (hused : 0 < (s.metaAt (s.fetchNode cfg ar).1).reference) (calls : Nat) :
    s.allocAlone cfg blk sh b ar (calls + 1) =
      (s.fetchNode cfg ar).2.allocAlone cfg blk sh b ar calls := by
  have hwait : ¬ s.waitsForItself cfg b ar := fun hc => Nat.ne_of_gt hused hc.1
  rw [TransBuffer.allocAlone, if_neg hwait, allocOnceAlone_used hused]

theorem RepInv.allocAlone {chain : Nat → List Nat} (h : RepInv cfg s chain) (blk : BlockId) (sh b : Nat)
    (hi : i < allocLimit cfg ar) (hfree : (s.metaAt i).reference = 0) :
    ∃ calls ≤ distance (allocLimit cfg ar) s.freeHead i + 1, ∃ iNode < allocLimit cfg ar, ∃ s',
      (∀ more, s.allocAlone cfg blk sh b ar (calls + more) = (some iNode, s')) ∧
        s.Taken s' iNode blk sh := by
  induction hd : distance (allocLimit cfg ar) s.freeHead i using Nat.strong_induction_on
    generalizing s with
  | _ d ih =>
    have hpos := allocLimit_pos cfg ar
    rcases Nat.eq_zero_or_pos (s.metaAt (s.fetchNode cfg ar).1).reference with hcur | hcur
    · obtain ⟨s', hs', htaken⟩ := h.allocAlone_free blk sh b hcur
      refine ⟨1, by omega, _, ?_, s', hs', htaken⟩
      rw [fetchNode_eq]
      dsimp only
      split <;> omega
    · have hne : (if allocLimit cfg ar ≤ s.freeHead then 0 else s.freeHead) ≠ i := by
        rintro rfl
        rw [fetchNode_eq, hfree] at hcur
        exact Nat.lt_irrefl 0 hcur
      have hnext : distance (allocLimit cfg ar) (s.fetchNode cfg ar).2.freeHead i + 1 ≤
          distance (allocLimit cfg ar) s.freeHead i := distance_next hi hne
      obtain ⟨calls, hcalls, iNode, hlt, s', hs', htaken⟩ :=
        ih _ (by omega) (s := (s.fetchNode cfg ar).2) (h.cursor _) hfree rfl
      refine ⟨calls + 1, ?_, iNode, hlt, s', fun more => ?_, htaken.of_cursor⟩
      · omega
      · rw [Nat.add_right_comm, allocAlone_used hcur, hs' more]

end TransBuffer

/-- **An allocation finds a free node.** In every state of the buffer, with the cursor anywhere, `Alloc`
without interference takes a free node of the caller's range after at most one cycle of calls of `FetchNode`
and one more, if there is one. -/
theorem alloc_finds_free (cfg : BufferConfig) (s : BufferState) (h : (bufferMachine cfg).Reachable s)
    (freeHead : Nat) (blockId : BlockId) (shardIdx : Nat) (allowReserved : Bool)
    (hfree : ∃ i < TransBuffer.allocLimit cfg allowReserved, (s.buf.metaAt i).reference = 0) :
    ∃ calls ≤ TransBuffer.allocLimit cfg allowReserved + 1,
      ∃ iNode < TransBuffer.allocLimit cfg allowReserved, ∃ s',
        (∀ more, { s.buf with freeHead := freeHead }.allocAlone cfg blockId shardIdx
          (cfg.hash blockId shardIdx) allowReserved (calls + more) = (some iNode, s')) ∧
        s.buf.Taken s' iNode blockId shardIdx := by
  obtain ⟨chain, hrep⟩ := (bufferInv_reachable h).rep
  obtain ⟨i, hi, hzero⟩ := hfree
  obtain ⟨calls, hcalls, iNode, hlt, s', hs', htaken⟩ :=
    (hrep.cursor freeHead).allocAlone blockId shardIdx (cfg.hash blockId shardIdx) hi hzero
  have hdist := TransBuffer.distance_lt (f := freeHead) hi
  have hle : calls ≤ TransBuffer.allocLimit cfg allowReserved + 1 := by
    dsimp only at hcalls
    omega
  exact ⟨calls, hle, iNode, hlt, s', hs', htaken.of_cursor⟩

/-- The cursor is at the end, and the first two nodes are in use. -/
theorem alloc_finds_free_wrapped :
    ∃ s, (bufferMachine .small).Reachable s ∧ (s.buf.metaAt 0).reference = 1 ∧
      (s.buf.metaAt 1).reference = 1 ∧
      ∃ calls ≤ TransBuffer.allocLimit .small false + 1,
        ∃ iNode < TransBuffer.allocLimit .small false, ∃ s',
          (∀ more, { s.buf with freeHead := 1024 }.allocAlone .small 9 0
            (BufferConfig.small.hash 9 0) false (calls + more) = (some iNode, s')) ∧
          s.buf.Taken s' iNode 9 0 := by
  obtain ⟨s, hs, hp⟩ := Lib.Machine.exists_reachable_of_run (M := bufferMachine .small)
    (s := { buf := .setup, handles := [] }) (l := [.get 7 0 false [true], .get 8 0 false [true]])
    (p := fun s => (s.buf.metaAt 0).reference = 1 ∧ (s.buf.metaAt 1).reference = 1 ∧
      (s.buf.metaAt 2).reference = 0) rfl (by decide +kernel)
  obtain ⟨hzero, hone, htwo⟩ := hp
  refine ⟨s, hs, hzero, hone, alloc_finds_free .small s hs 1024 9 0 false ⟨2, ?_, htwo⟩⟩
  decide

end UnifiedCache.Cache
