import UnifiedCache.Connector.ContextParallel
import UnifiedCache.Connector.Proofs.DispatchProofs

/-!
# Proofs: every rank has its stripe

What the scheduler dispatches is a run of whole rows of `cp_world_size` hashes, one row for each block
of the GPU (`DispatchAligned`), so a rank's stripe has one hash of every row and the ranks together
have them all. Without preemptions a request that waits has metadata without blocks, so the runs are
among those in which what is dispatched is aligned.
-/

open Function Lib

namespace UnifiedCache.Connector

variable {η : Type} {cfg : Config η} {g : CpGroups cfg} {s s' : State η} {r : Request}
  {blocks : List η × List VllmBlock} {out : SchedulerOutput}

/-! ## Ranks -/

theorem CpRank.currentRank_lt (k : CpRank g) : k.currentRank < cfg.cpWorldSize := by
  have hp : k.pcpRank + 1 ≤ g.pcpWorldSize := k.pcpRank.isLt
  have hd := k.dcpRank.isLt
  have hrow := Nat.mul_le_mul_left g.dcpWorldSize hp
  rw [Nat.mul_add, Nat.mul_comm g.dcpWorldSize g.pcpWorldSize, ← g.cpWorldSize_eq] at hrow
  unfold CpRank.currentRank
  omega

theorem CpGroups.map_currentRank (g : CpGroups cfg) :
    g.ranks.map CpRank.currentRank = List.range cfg.cpWorldSize := by
  have hval (n : Nat) : (List.finRange n).map Fin.val = List.range n := by simp
  rw [g.cpWorldSize_eq, ← flatMap_range_grid, ← hval g.pcpWorldSize, ← hval g.dcpWorldSize,
    List.flatMap_map]
  simp only [CpGroups.ranks, List.map_flatMap, List.map_map]
  rfl

/-! ## Stripes of a dispatch -/

theorem CpRank.bindBlockIds_eq (k : CpRank g) (blocks : List η × List VllmBlock) :
    k.bindBlockIds blocks = (stride cfg.cpWorldSize k.currentRank blocks.1, blocks.2) := by
  obtain ⟨hashes, ids⟩ := blocks
  unfold CpRank.bindBlockIds
  split_ifs with hlength
  · rfl
  · have hnil : hashes = [] := List.length_eq_zero_iff.mp (Nat.eq_zero_of_not_pos hlength)
    rw [hnil, stride_nil]

theorem partitioned (g : CpGroups cfg) (blocks : List η × List VllmBlock) : Partitioned g blocks := by
  have hstripes : (g.ranks.flatMap fun k => (k.bindBlockIds blocks).1) =
      (List.range cfg.cpWorldSize).flatMap fun i => stride cfg.cpWorldSize i blocks.1 := by
    simp only [CpRank.bindBlockIds_eq]
    rw [← g.map_currentRank, List.flatMap_map]
  rw [Partitioned, hstripes]
  exact flatMap_stride_perm cfg.cpWorldSize_pos blocks.1

theorem Aligned.striped {bound start : Nat} (h : Aligned cfg r bound start blocks) (k : CpRank g) :
    Striped cfg r k.currentRank bound (k.bindBlockIds blocks) := by
  have hrank := k.currentRank_lt
  have hlength : blocks.1.length = blocks.2.length * cfg.cpWorldSize := by
    rw [h.hashes, List.length_map, List.length_range']
  rw [k.bindBlockIds_eq]
  refine ⟨length_stride hrank hlength, start, fun j v hv => ?_⟩
  have hj : j < blocks.2.length := (List.getElem?_eq_some_iff.mp hv).1
  have hlt : k.currentRank + j * cfg.cpWorldSize < blocks.2.length * cfg.cpWorldSize := by
    have hrow := Nat.mul_le_mul_right cfg.cpWorldSize (show j + 1 ≤ blocks.2.length from hj)
    rw [Nat.add_mul] at hrow
    omega
  have hplace : start * cfg.cpWorldSize + 1 * (k.currentRank + j * cfg.cpWorldSize) =
      (start + j) * cfg.cpWorldSize + k.currentRank := by
    rw [Nat.add_mul]
    omega
  refine ⟨h.table j v hv, ?_, h.bound j hj⟩
  rw [getElem?_stride cfg.cpWorldSize_pos, h.hashes, List.getElem?_map, List.getElem?_range' hlt,
    hplace]
  rfl

theorem DispatchAligned.striped {d : RequestDispatchMeta η} (h : DispatchAligned cfg r d)
    (k : CpRank g) : DispatchStriped cfg r k.currentRank (k.bindRequest d) := by
  obtain ⟨⟨_, hload⟩, ⟨_, hdump⟩⟩ := h
  exact ⟨hload.striped k, hdump.striped k⟩

/-! ## Runs without preemptions -/

/-- Before a request runs for the first time its metadata has no blocks, and no request is
preempted. -/
structure FreshInv (s : State η) : Prop where
  preempted : ∀ id, (s.requests id).status ≠ .preempted
  fresh : ∀ id, (s.requests id).status = .unknown ∨ (s.requests id).status = .waiting →
    ∀ m, s.requestsMeta id = some m → m.vllmBlockIds = []

theorem FreshInv.setRequest (h : FreshInv s) {id : ReqId} (hpreempted : r.status ≠ .preempted)
    (hfresh : r.status = .unknown ∨ r.status = .waiting →
      (s.requests id).status = .unknown ∨ (s.requests id).status = .waiting) :
    FreshInv (s.setRequest id r) := by
  constructor
  · intro id'
    by_cases hid : id' = id
    · subst hid
      simpa only [State.setRequest, update_self] using hpreempted
    · simpa only [State.setRequest, update_of_ne hid] using h.preempted id'
  · intro id' hstatus m hm
    by_cases hid : id' = id
    · subst hid
      simp only [State.setRequest, update_self] at hstatus
      exact h.fresh id' (hfresh hstatus) m hm
    · simp only [State.setRequest, update_of_ne hid] at hstatus
      exact h.fresh id' hstatus m hm

theorem FreshInv.matched (h : FreshInv s) {id : ReqId} {numLocal : Nat} {lookup : Option Int}
    (hstep : step cfg s (.matched id numLocal lookup) = some s') : FreshInv s' := by
  simp only [step] at hstep
  split_ifs at hstep with hguard
  cases hstep
  obtain ⟨-, hlocal, -, hlookup⟩ := hguard
  have hset : FreshInv (s.setRequest id { s.requests id with
      matched := some (numLocal, numLocal + (getNumNewMatchedTokens cfg s.requestsMeta id
        (s.requests id).allTokenIds numLocal lookup).2) }) :=
    h.setRequest (h.preempted id) fun hstatus => hstatus
  refine ⟨hset.preempted, fun id' hstatus m hm => ?_⟩
  rcases getNumNewMatchedTokens_spec s.requestsMeta id hlocal hlookup with
    ⟨heq, -⟩ | ⟨m', external, heq, -, -, hempty, -⟩
  · rw [heq] at hm
    exact hset.fresh id' hstatus m hm
  · rw [heq] at hm
    by_cases hid : id' = id
    · subst hid
      simp only [update_self, Option.some.injEq] at hm
      exact hm ▸ hempty
    · simp only [update_of_ne hid] at hm
      exact hset.fresh id' hstatus m hm

theorem FreshInv.schedule (h : FreshInv s) (hstep : step cfg s (.schedule out) = some s') :
    FreshInv s' := by
  obtain ⟨hrequests, hmetas', -⟩ := step_schedule hstep
  obtain ⟨-, hitems, hother, -⟩ := scheduleRequests_spec hrequests
  have hrunning : ∀ id ∈ out.items.map Item.id, (s'.requests id).status = .running := by
    intro id hid
    obtain ⟨item, hitem, rfl⟩ := List.mem_map.mp hid
    exact Request.schedule_status (hitems item hitem)
  constructor
  · intro id
    by_cases hid : id ∈ out.items.map Item.id
    · simp [hrunning id hid]
    · rw [hother id hid]
      exact h.preempted id
  · intro id hstatus m hm
    have hid : id ∉ out.items.map Item.id := by
      intro hid
      simp [hrunning id hid] at hstatus
    rw [hmetas', foldl_finished, foldl_dispatchItem_of_notMem hid] at hm
    split_ifs at hm
    rw [hother id hid] at hstatus
    exact h.fresh id hstatus m hm

theorem FreshInv.step (h : FreshInv s) {e : Event} (hno : NoPreempt s e)
    (hstep : step cfg s e = some s') : FreshInv s' := by
  cases e with
  | arrive id prompt =>
    simp only [Connector.step] at hstep
    split_ifs at hstep with hguard
    cases hstep
    exact h.setRequest (by simp) fun _ => .inl hguard.1
  | matched id numLocal lookup => exact h.matched hstep
  | schedule out => exact h.schedule hstep
  | append id token =>
    simp only [Connector.step] at hstep
    split_ifs at hstep with hguard
    cases hstep
    exact h.setRequest (h.preempted id) fun hstatus => hstatus
  | preempt id => exact hno.elim
  | finish id =>
    simp only [Connector.step] at hstep
    split_ifs at hstep with hguard
    cases hstep
    exact h.setRequest (by simp) (by simp)

theorem FreshInv.of_reach (h : (machine cfg).Reach NoPreempt s) : FreshInv s := by
  refine h.inv ?_ ?_
  · rintro s rfl
    exact ⟨fun _ => by simp [State.start, Request.none],
      fun _ _ _ hm => absurd hm (by simp [State.start])⟩
  · intro s e s' hinv hno hstep
    exact hinv.step hno hstep

theorem FreshInv.matchedAfresh (h : FreshInv s) {e : Event}
    (hstep : Connector.step cfg s e = some s') : MatchedAfresh cfg s e := by
  cases e with
  | matched id numLocal lookup =>
    simp only [Connector.step] at hstep
    split_ifs at hstep with hguard
    intro m hm hne
    have hwaiting : (s.requests id).status = .waiting := hguard.1.resolve_right (h.preempted id)
    exact absurd (h.fresh id (.inr hwaiting) m hm) hne
  | arrive => trivial
  | schedule => trivial
  | append => trivial
  | preempt => trivial
  | finish => trivial

theorem reach_matchedAfresh (h : (machine cfg).Reach NoPreempt s) :
    (machine cfg).Reach (MatchedAfresh cfg) s := by
  induction h with
  | init h => exact .init h
  | step hs _ hstep ih => exact .step ih ((FreshInv.of_reach hs).matchedAfresh hstep) hstep

/-- **Striping is exact.** Whatever a scheduling step of a run without preemptions dispatches, every
rank is left, once it has bound the metadata, with as many hashes as blocks of the GPU, the `j`th of
them the hash that the rank has in the `j`th block; and the ranks together keep every hash once. -/
theorem striping_exact (h : (machine cfg).Reach NoPreempt s)
    (hstep : (machine cfg).step s (.schedule out) = some s') (g : CpGroups cfg) :
    (∀ k : CpRank g, ∀ x ∈ k.bindConnectorMetadata s'.dispatched,
      DispatchStriped cfg (s'.requests x.1) k.currentRank x.2) ∧
    ∀ x ∈ s'.dispatched, Partitioned g x.2.loadBlockIds ∧ Partitioned g x.2.dumpBlockIds := by
  have hinv := SchedulerInv.of_reach (reach_matchedAfresh h)
  refine ⟨fun k x hx => ?_, fun x _ => ⟨partitioned g _, partitioned g _⟩⟩
  obtain ⟨y, hy, rfl⟩ := List.mem_map.mp hx
  exact ((hinv.schedule hstep).2 y hy).striped k

/-- Blocks of one token, four of them in a block of the table, and hashes that are the tokens. -/
def Config.fourRanks : Config (List Token) where
  hashBlockSize := 1
  cpWorldSize := 4
  persistTokenThreshold := 0
  requestHasher := fun parent block => parent ++ block
  seed := []
  hashBlockSize_pos := Nat.one_pos
  cpWorldSize_pos := Nat.zero_lt_succ 3

/-- Two groups of two workers. -/
def CpGroups.twoByTwo : CpGroups .fourRanks := ⟨2, 2, rfl⟩

/-- A step with request `0` alone, while it runs. -/
def continueAlone (n : Nat) (blocks : List VllmBlock) : SchedulerOutput where
  scheduledNewReqs := []
  scheduledCachedReqs := [⟨0, some blocks, false⟩]
  numScheduledTokens := fun _ => n
  finishedReqIds := []

/-- A prompt of eleven tokens of which six are stored. One block of the table is loaded; the first
chunk ends within the second block, and the second chunk, which ends within the third, dumps the
hashes `4` to `7`, one on each rank. -/
theorem striping_exact_chunks : ∃ s s', (machine .fourRanks).Reach NoPreempt s ∧
    (machine .fourRanks).step s (.schedule (continueAlone 4 [12])) = some s' ∧
    s.dispatched.map (fun x => x.2.loadBlockIds) =
      [([[1], [1, 2], [1, 2, 3], [1, 2, 3, 4]], [10])] ∧
    s'.dispatched.map (fun x => CpGroups.twoByTwo.ranks.map fun k => k.bindBlockIds x.2.dumpBlockIds) =
      [[([[1, 2, 3, 4, 5]], [11]), ([[1, 2, 3, 4, 5, 6]], [11]), ([[1, 2, 3, 4, 5, 6, 7]], [11]),
        ([[1, 2, 3, 4, 5, 6, 7, 8]], [11])]] ∧
    (∀ k : CpRank .twoByTwo, ∀ x ∈ k.bindConnectorMetadata s'.dispatched,
      DispatchStriped .fourRanks (s'.requests x.1) k.currentRank x.2) ∧
    ∀ x ∈ s'.dispatched, Partitioned .twoByTwo x.2.loadBlockIds ∧
      Partitioned .twoByTwo x.2.dumpBlockIds := by
  obtain ⟨s, hreach, hp⟩ := Machine.exists_reach_of_run (M := machine .fourRanks) (C := NoPreempt)
    (s := .start) (l := [.arrive 0 [1, 2, 3, 4, 5, 6, 7, 8, 9, 10, 11], .matched 0 0 (some 5),
      .schedule (startAlone 3 [10, 11])]) (p := fun s => s.dispatched.map (fun x =>
      x.2.loadBlockIds) = [([[1], [1, 2], [1, 2, 3], [1, 2, 3, 4]], [10])] ∧
      ∃ s' ∈ (machine .fourRanks).step s (.schedule (continueAlone 4 [12])),
        decide (s'.dispatched.map (fun x => CpGroups.twoByTwo.ranks.map fun k =>
          k.bindBlockIds x.2.dumpBlockIds) = [[([[1, 2, 3, 4, 5]], [11]),
            ([[1, 2, 3, 4, 5, 6]], [11]), ([[1, 2, 3, 4, 5, 6, 7]], [11]),
            ([[1, 2, 3, 4, 5, 6, 7, 8]], [11])]])) rfl (by decide +kernel)
  obtain ⟨hload, s', hstep, hdump⟩ := hp
  exact ⟨s, s', hreach, hstep, hload, of_decide_eq_true hdump, striping_exact hreach hstep .twoByTwo⟩

end UnifiedCache.Connector
