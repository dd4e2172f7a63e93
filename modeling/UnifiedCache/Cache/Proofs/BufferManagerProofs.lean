import UnifiedCache.Cache.BufferManager
import UnifiedCache.Cache.Proofs.DurabilityProofs

/-!
# Proofs: what a lookup reports

The loop of `Lookup` keeps the places of the blocks that miss the buffer in ascending order
(`lookupLoop_eq`), so a block that is reported has its shard 0 in the buffer or is reported by the
backend. With one shard per block this is enough. With more, a dump of shard 0 alone makes the lookup
report the block.
-/

open Lib

namespace UnifiedCache.Cache

namespace BufferManager

variable {cfg : BufferConfig} {backend : Backend} {blocks : List (BlockId × TransBuffer)}

/-- The blocks that miss the buffer, with their places; the first block has place `i`. -/
def misses (cfg : BufferConfig) (i : Nat) (blocks : List (BlockId × TransBuffer)) :
    List ((BlockId × TransBuffer) × Nat) :=
  (blocks.zipIdx i).filter fun x => !hit cfg x.1

theorem lookupLoop_eq (i : Nat) (acc : LookupScan) : lookupLoop cfg i blocks acc =
    ⟨acc.results ++ blocks.map (hit cfg), acc.missBlk ++ (misses cfg i blocks).map (·.1.1),
      acc.missIdx ++ (misses cfg i blocks).map (·.2)⟩ := by
  induction blocks generalizing i acc with
  | nil => simp [lookupLoop, misses]
  | cons x rest ih =>
    have hmisses : misses cfg i (x :: rest) =
        if hit cfg x then misses cfg (i + 1) rest else (x, i) :: misses cfg (i + 1) rest := by
      unfold misses
      rw [List.zipIdx_cons, List.filter_cons]
      cases hit cfg x <;> rfl
    unfold lookupLoop
    split_ifs with hx
    · rw [ih, hmisses]
      simp [hx]
    · rw [ih, hmisses]
      simp [hx]

theorem misses_getElem? {j i : Nat} {x : BlockId × TransBuffer}
    (h : (misses cfg 0 blocks)[j]? = some (x, i)) : blocks[i]? = some x ∧ hit cfg x = false := by
  have hmem := List.mem_of_getElem? h
  simp only [misses, List.mem_filter, Bool.not_eq_true'] at hmem
  exact ⟨List.mem_zipIdx_iff_getElem?.mp hmem.1, hmem.2⟩

theorem exists_miss {i : Nat} {x : BlockId × TransBuffer} (h : blocks[i]? = some x)
    (hx : hit cfg x = false) : ∃ j : Nat, (misses cfg 0 blocks)[j]? = some (x, i) := by
  refine List.mem_iff_getElem?.mp ?_
  simp only [misses, List.mem_filter, Bool.not_eq_true']
  exact ⟨List.mem_zipIdx_iff_getElem?.mpr h, hx⟩

theorem misses_sorted (i : Nat) : ((misses cfg i blocks).map (·.2)).Pairwise (· < ·) := by
  have hsub : List.Sublist ((misses cfg i blocks).map (·.2)) ((blocks.zipIdx i).map (·.2)) :=
    List.filter_sublist.map _
  refine List.Pairwise.sublist hsub ?_
  rw [show (blocks.zipIdx i).map (·.2) = List.range' i blocks.length by simp]
  exact List.pairwise_lt_range'

theorem of_fill {missIdx : List Nat} {backendVec results : List Bool} {i : Nat}
    (h : (fill missIdx backendVec results)[i]? = some true) :
    results[i]? = some true ∨ ∃ j : Nat, missIdx[j]? = some i ∧ backendVec[j]? = some true := by
  unfold fill at h
  induction missIdx generalizing backendVec results with
  | nil => exact .inl h
  | cons k missIdx ih =>
    cases backendVec with
    | nil => exact .inl h
    | cons v backendVec =>
      rcases ih h with hres | ⟨j, hj, hv⟩
      · rw [List.getElem?_set] at hres
        split_ifs at hres with hki hlt
        · subst hki
          exact .inr ⟨0, rfl, hres⟩
        · exact .inl hres
      · exact .inr ⟨j + 1, hj, hv⟩

theorem fill_of_not_mem {missIdx : List Nat} {backendVec results : List Bool} {i : Nat}
    (h : i ∉ missIdx) : (fill missIdx backendVec results)[i]? = results[i]? := by
  unfold fill
  induction missIdx generalizing backendVec results with
  | nil => rfl
  | cons k missIdx ih =>
    cases backendVec with
    | nil => rfl
    | cons v backendVec =>
      rw [List.mem_cons, not_or] at h
      exact (ih h.2).trans (List.getElem?_set_ne (Ne.symm h.1))

variable {nShard : Nat} {stored : Finset Key} {i : Nat} {x : BlockId × TransBuffer}

theorem lookupFast_reports (hok : backend.Ok nShard stored) {v : List Bool}
    (h : lookupFast cfg backend blocks = some v) (hx : blocks[i]? = some x)
    (hi : v[i]? = some true) : hit cfg x = true ∨ Whole nShard stored x.1 := by
  have hresult : (blocks.map (hit cfg))[i]? = some true → hit cfg x = true := by
    rw [List.getElem?_map, hx]
    exact Option.some.inj
  simp only [lookupFast, lookupLoop_eq, List.nil_append] at h
  split_ifs at h
  · cases h
    exact .inl (hresult hi)
  · obtain ⟨backendVec, hvec, rfl⟩ := Option.map_eq_some_iff.mp h
    rcases of_fill hi with hres | ⟨j, hj, hbit⟩
    · exact .inl (hresult hres)
    · rw [List.getElem?_map] at hj
      obtain ⟨⟨y, i'⟩, hmiss, rfl⟩ := Option.map_eq_some_iff.mp hj
      obtain ⟨hy, -⟩ := misses_getElem? hmiss
      rw [hx] at hy
      cases hy
      refine .inr (hok.lookup _ _ hvec j x.1 ?_ hbit)
      rw [List.getElem?_map, hmiss]
      rfl

theorem lookupOnPrefixFast_reports (hok : backend.Ok nShard stored) {r : Int}
    (h : lookupOnPrefixFast cfg backend blocks = some r) (hx : blocks[i]? = some x)
    (hi : (i : Int) ≤ r) : hit cfg x = true ∨ Whole nShard stored x.1 := by
  rw [or_iff_not_imp_left]
  intro hhit
  obtain ⟨j, hj⟩ := exists_miss hx (Bool.eq_false_iff.mpr hhit)
  obtain ⟨hjlt, -⟩ := List.getElem?_eq_some_iff.mp hj
  simp only [lookupOnPrefixFast, lookupLoop_eq, List.nil_append] at h
  split_ifs at h with hempty
  · rw [List.isEmpty_iff, List.map_eq_nil_iff] at hempty
    rw [hempty] at hjlt
    cases hjlt
  · obtain ⟨result, hres, hr⟩ := Option.map_eq_some_iff.mp h
    obtain ⟨hlow, hhigh⟩ := hok.bounds _ _ hres
    rw [List.length_map] at hhigh
    refine hok.lookupOnPrefix _ _ hres j x.1 (by rw [List.getElem?_map, hj]; rfl) ?_
    -- The misses before place `r` are those the backend has reported.
    by_contra hgt
    have hle : (result + 1).toNat ≤ j := by omega
    have hsorted : ((misses cfg 0 blocks).map (·.2)).Pairwise (· < ·) := misses_sorted 0
    have hjidx : ((misses cfg 0 blocks).map (·.2))[j]? = some i := by
      rw [List.getElem?_map, hj]
      rfl
    split_ifs at hr with hall
    · rw [List.length_map] at hall
      omega
    · have hlt : (result + 1).toNat < ((misses cfg 0 blocks).map (·.2)).length := by
        rw [List.length_map]
        omega
      rw [List.getD_eq_getElem?_getD, List.getElem?_eq_getElem hlt, Option.getD_some] at hr
      obtain ⟨hjlt', hjval⟩ := List.getElem?_eq_some_iff.mp hjidx
      have hmono : ((misses cfg 0 blocks).map (·.2))[(result + 1).toNat] ≤ i := by
        rcases Nat.eq_or_lt_of_le hle with heq | hlt'
        · simp only [heq, hjval, Nat.le_refl]
        · have := List.pairwise_iff_getElem.mp hsorted _ _ hlt hjlt' hlt'
          omega
      omega

theorem lookupFast_hit {v : List Bool} (h : lookupFast cfg backend blocks = some v)
    (hx : blocks[i]? = some x) (hhit : hit cfg x = true) : v[i]? = some true := by
  have hresult : (blocks.map (hit cfg))[i]? = some true := by
    rw [List.getElem?_map, hx]
    exact congrArg some hhit
  simp only [lookupFast, lookupLoop_eq, List.nil_append] at h
  split_ifs at h
  · cases h
    exact hresult
  · obtain ⟨backendVec, hvec, rfl⟩ := Option.map_eq_some_iff.mp h
    rw [fill_of_not_mem, hresult]
    intro hmem
    obtain ⟨⟨y, i'⟩, hmiss, rfl⟩ := List.mem_map.mp hmem
    obtain ⟨j, hj⟩ := List.getElem?_of_mem hmiss
    obtain ⟨hy, hyhit⟩ := misses_getElem? hj
    rw [hx] at hy
    cases hy
    rw [hhit] at hyhit
    cases hyhit

end BufferManager

/-! ## Calls -/

variable {cfg : Config} {n nShard : Nat} {c : LookupCall cfg n nShard}

theorem hit_iff {x : BlockId × State n} (h : (storeMachine cfg n).Reach (IndicesBelow nShard) x.2) :
    BufferManager.hit cfg.buffer (x.1, x.2.buf) = true ↔ ∃ i, x.2.buf.Keyed i x.1 0 := by
  obtain ⟨chain, hrep⟩ := (storeInv_reach h).rep
  exact hrep.exist_iff

theorem LookupCall.blocks_getElem? {i : Nat} {x : BlockId × State n}
    (h : c.checks[i]? = some x) : c.blocks[i]? = some (x.1, x.2.buf) := by
  rw [LookupCall.blocks, List.getElem?_map, h]
  rfl

theorem LookupCall.sound_unbuffered : c.Sound false := by
  intro backend hok
  have hblock : ∀ {i : Nat} {x}, c.checks[i]? = some x → (c.blocks.map Prod.fst)[i]? = some x.1 := by
    intro i x hx
    rw [List.getElem?_map, LookupCall.blocks_getElem? hx]
    rfl
  constructor
  · intro v hv i x hx hi
    exact .inr (hok.lookup _ _ hv i x.1 (hblock hx) hi)
  · intro r hr i x hx hi
    exact .inr (hok.lookupOnPrefix _ _ hr i x.1 (hblock hx) hi)

theorem LookupCall.sound_iff_unsplit : c.Sound true ↔ c.Unsplit := by
  constructor
  · intro h x hmem hkeyed
    obtain ⟨i, hx⟩ := List.getElem?_of_mem hmem
    -- A backend that finds nothing is within the contract.
    have hok : Backend.Ok nShard c.final.stored
        ⟨fun blocks => some (blocks.map fun _ => false), fun _ => none⟩ := by
      refine ⟨?_, ?_, nofun, nofun⟩
      · rintro blocks v ⟨⟩
        exact List.length_map _
      · rintro blocks v ⟨⟩ i b hb hi
        rw [List.getElem?_map, hb] at hi
        cases hi
    obtain ⟨v, hv⟩ : ∃ v, BufferManager.lookup cfg.buffer true
        ⟨fun blocks => some (blocks.map fun _ => false), fun _ => none⟩ c.blocks = some v := by
      simp only [BufferManager.lookup, BufferManager.lookupFast, if_true]
      split_ifs
      · exact ⟨_, rfl⟩
      · exact ⟨_, rfl⟩
    refine (h _ hok).1 v hv i x hx ?_
    exact BufferManager.lookupFast_hit hv (LookupCall.blocks_getElem? hx)
      ((hit_iff (c.checks_reach x hmem)).mpr hkeyed)
  · intro h backend hok
    have hpresent : ∀ {i : Nat} {x}, c.checks[i]? = some x →
        (BufferManager.hit cfg.buffer (x.1, x.2.buf) = true ∨ Whole nShard c.final.stored x.1) →
        c.Present x := by
      intro i x hx hreported
      have hmem := List.mem_of_getElem? hx
      rcases hreported with hhit | hwhole
      · exact h x hmem ((hit_iff (c.checks_reach x hmem)).mp hhit)
      · exact .inr hwhole
    constructor
    · intro v hv i x hx hi
      exact hpresent hx (BufferManager.lookupFast_reports hok hv (LookupCall.blocks_getElem? hx) hi)
    · intro r hr i x hx hi
      exact hpresent hx
        (BufferManager.lookupOnPrefixFast_reports hok hr (LookupCall.blocks_getElem? hx) hi)

/-! ## A block of which only shard 0 is dumped -/

theorem get_setup (cfg : BufferConfig) (b : BlockId) (k : Nat) :
    (TransBuffer.setup.get cfg b k false [true]).1 = some ⟨0, true⟩ ∧
      ∀ i b' k', (TransBuffer.setup.get cfg b k false [true]).2.Keyed i b' k' ↔
        i = 0 ∧ b' = b ∧ k' = k := by
  have hmiss : TransBuffer.setup.findAt cfg (cfg.hash b k) b k = none := rfl
  have halloc : TransBuffer.setup.allocOnce cfg b k (cfg.hash b k) false true = (some 0,
      (TransBuffer.moveTo { TransBuffer.setup with freeHead := 1 } (cfg.hash b k) 0).rekey 0 b k) := by
    simp [TransBuffer.allocOnce, TransBuffer.fetchNode, TransBuffer.setup, BufferMetaNode.init]
  have hget : TransBuffer.setup.get cfg b k false [true] = (some ⟨0, true⟩,
      (TransBuffer.moveTo { TransBuffer.setup with freeHead := 1 } (cfg.hash b k) 0).rekey 0 b k) := by
    simp only [TransBuffer.get, hmiss, TransBuffer.alloc, halloc]
  rw [hget]
  refine ⟨rfl, fun i b' k' => ?_⟩
  by_cases hi : i = 0
  · subst hi
    simp only [TransBuffer.Keyed, TransBuffer.rekey, TransBuffer.moveTo, TransBuffer.modify,
      TransBuffer.modifyAt, TransBuffer.setFirst, TransBuffer.setup, if_true, ne_eq,
      reduceCtorEq, not_false_eq_true, true_and]
    exact and_congr eq_comm eq_comm
  · simp [hi, TransBuffer.Keyed, TransBuffer.rekey, TransBuffer.moveTo, TransBuffer.modify,
      TransBuffer.modifyAt, TransBuffer.setFirst, TransBuffer.setup, BufferMetaNode.init]

theorem reach_dumpDispatcher {s : State n} (p : Fin n) (env : Env) {r : TransBuffer × Proc}
    (hs : (storeMachine cfg n).Reach (IndicesBelow nShard) s)
    (h : (s.procs p).dumpDispatcher cfg env s.buf = some r) :
    (storeMachine cfg n).Reach (IndicesBelow nShard) (s.set p r) := by
  refine .step (e := ⟨p, .dumpDispatcher, env⟩) hs trivial ?_
  show ((s.procs p).dumpDispatcher cfg env s.buf).map (s.set p) = some (s.set p r)
  rw [h]
  rfl

theorem exists_split (cfg : Config) (n nShard : Nat) (hdepth : 1 < cfg.waitingQueueDepth)
    (hpos : 0 < nShard) (b : BlockId) :
    ∃ s, (storeMachine cfg (n + 1)).Reach (IndicesBelow nShard) s ∧ s.stored = ∅ ∧
      ∀ i b' k, s.buf.Keyed i b' k ↔ i = 0 ∧ b' = b ∧ k = 0 := by
  let shard : Shard := ⟨b, 0, []⟩
  let task : TransTask := ⟨1, .dump, [shard], 0⟩
  obtain ⟨s₁, h₁, hst₁, hbuf₁, hwait₁, hpc₁, hf₁⟩ : ∃ s : State (n + 1),
      (storeMachine cfg (n + 1)).Reach (IndicesBelow nShard) s ∧ s.stored = ∅ ∧ s.buf = .setup ∧
      (s.procs 0).dump.waiting = [task] ∧ (s.procs 0).dump.dispatch = .idle ∧
      (s.procs 0).tasks.failureSet = ∅ := by
    refine ⟨_, .step (s := .start (n + 1) ∅) (e := ⟨0, .submit .dump [shard] 0, {}⟩)
      (.init ⟨rfl, fun _ => rfl⟩) ?_ rfl, rfl, rfl, ?_, ?_, ?_⟩
    · intro sh hsh
      rw [List.mem_singleton.mp hsh]
      exact hpos
    all_goals
      simp [State.set, Proc.submit, State.start, Proc.init, hdepth, task]
  obtain ⟨s₂, h₂, hst₂, hbuf₂, hpc₂, hf₂⟩ : ∃ s : State (n + 1),
      (storeMachine cfg (n + 1)).Reach (IndicesBelow nShard) s ∧ s.stored = ∅ ∧ s.buf = .setup ∧
      (s.procs 0).dump.dispatch = .check task ∧ (s.procs 0).tasks.failureSet = ∅ := by
    refine ⟨_, reach_dumpDispatcher 0 {} h₁ (r := ?_) ?_, hst₁, ?_, ?_, ?_⟩
    rotate_left
    · simp only [Proc.dumpDispatcher, hpc₁, hwait₁]
      rfl
    all_goals
      simp [State.set, hbuf₁, hf₁]
  obtain ⟨s₃, h₃, hst₃, hbuf₃, hpc₃⟩ : ∃ s : State (n + 1),
      (storeMachine cfg (n + 1)).Reach (IndicesBelow nShard) s ∧ s.stored = ∅ ∧ s.buf = .setup ∧
      (s.procs 0).dump.dispatch = .get task [shard] [] := by
    refine ⟨_, reach_dumpDispatcher 0 {} h₂ (r := ?_) ?_, hst₂, ?_, ?_⟩
    rotate_left
    · simp only [Proc.dumpDispatcher, hpc₂, hf₂]
      rfl
    all_goals
      simp [State.set, hbuf₂, task]
  obtain ⟨hhandle, hkeyed⟩ := get_setup cfg.buffer b 0
  have hstep : (s₃.procs 0).dumpDispatcher cfg { tryLocks := [true] } s₃.buf =
      some ((TransBuffer.setup.get cfg.buffer b 0 false [true]).2, { s₃.procs 0 with
        dump := { (s₃.procs 0).dump with dispatch := .ready task shard [] [] ⟨0, true⟩ } }) := by
    simp only [Proc.dumpDispatcher, hpc₃, hbuf₃]
    rw [show TransBuffer.setup.get cfg.buffer shard.owner shard.index false [true] =
      (some ⟨0, true⟩, (TransBuffer.setup.get cfg.buffer b 0 false [true]).2) from
        Prod.ext hhandle rfl]
    rfl
  exact ⟨_, reach_dumpDispatcher _ _ h₃ hstep, hst₃, hkeyed⟩

/-- **Multi-shard hit soundness.** Without a buffer every lookup is sound; with one a lookup is sound
exactly when the buffer has shard 0 of the blocks only together with their other shards, or the
backend has the whole block. So all lookups of all runs are sound if and only if a block has one
shard. -/
theorem lookup_sound_iff (cfg : Config) (n nShard : Nat) (hdepth : 1 < cfg.waitingQueueDepth)
    (hpos : 0 < nShard) :
    (∀ c : LookupCall cfg (n + 1) nShard, c.Sound false ∧ (c.Sound true ↔ c.Unsplit)) ∧
      ((∀ c : LookupCall cfg (n + 1) nShard, c.Sound true) ↔ nShard = 1) := by
  refine ⟨fun c => ⟨c.sound_unbuffered, c.sound_iff_unsplit⟩, ?_, ?_⟩
  · intro h
    obtain ⟨s, hs, hstored, hkeyed⟩ := exists_split cfg n nShard hdepth hpos 0
    by_contra hne
    have hunsplit := LookupCall.sound_iff_unsplit.mp
      (h ⟨[(0, s)], s, by simpa using hs, hs⟩)
    rcases hunsplit (0, s) (List.mem_singleton_self _) ⟨0, (hkeyed 0 0 0).mpr ⟨rfl, rfl, rfl⟩⟩ with
      hheld | hwhole
    · obtain ⟨i, hi⟩ := hheld 1 (by omega)
      have := ((hkeyed i 0 1).mp hi).2.2
      omega
    · have hmem := hwhole 0 hpos
      rw [hstored] at hmem
      exact absurd hmem (Finset.notMem_empty _)
  · rintro rfl c
    refine LookupCall.sound_iff_unsplit.mpr fun x hx hkeyed => .inl fun k hk => ?_
    rw [Nat.lt_one_iff.mp hk]
    exact hkeyed

/-- With two shards per block some lookup is unsound, with one none is. -/
theorem lookup_sound_iff_small :
    (1 < Config.small.waitingQueueDepth ∧ ¬∀ c : LookupCall .small 1 2, c.Sound true) ∧
      ∀ c : LookupCall .small 1 1, c.Sound true := by
  refine ⟨⟨by decide, fun h => ?_⟩, ?_⟩
  · have htwo := (lookup_sound_iff .small 0 2 (by decide) (by decide)).2.mp h
    exact absurd htwo (by decide)
  · exact (lookup_sound_iff .small 0 1 (by decide) (by decide)).2.mpr rfl

/-- Shard 0 of block 7 is dumped and the dump has been waited for: the lookup reports the block, of
which shard 1 is neither in the buffer nor stored. -/
theorem lookup_unsound :
    ∃ (s : State 1) (backend : Backend),
      (storeMachine .small 1).Reach (IndicesBelow 2) s ∧ backend.Ok 2 s.stored ∧
      (s.procs 0).tasks.wait 1 = .returned (some true) ∧
      BufferManager.lookup Config.small.buffer true backend [(7, s.buf)] = some [true] ∧
      BufferManager.lookupOnPrefix Config.small.buffer true backend [(7, s.buf)] = some 0 ∧
      (¬∃ i, s.buf.Keyed i 7 1) ∧ ¬Whole 2 s.stored 7 := by
  obtain ⟨s, hreach, hp⟩ := Machine.exists_reach_of_run (M := storeMachine .small 1)
    (C := IndicesBelow 2) (s := .start 1 ∅) (l := dumpTrace) (p := fun s =>
      (s.procs 0).tasks.wait 1 = .returned (some true) ∧ s.buf.exist Config.small.buffer 7 0 ∧
      s.buf.exist Config.small.buffer 7 1 = false ∧ ¬Whole 2 s.stored 7) ⟨rfl, fun _ => rfl⟩
    (by decide +kernel)
  obtain ⟨hwait, hzero, hone, hwhole⟩ := hp
  have hhit : BufferManager.hit Config.small.buffer (7, s.buf) = true := hzero
  have hloop : BufferManager.lookupLoop Config.small.buffer 0 [(7, s.buf)] ⟨[], [], []⟩ =
      ⟨[true], [], []⟩ := by
    rw [BufferManager.lookupLoop, if_pos hhit]
    rfl
  refine ⟨s, ⟨fun _ => none, fun _ => none⟩, hreach, ⟨nofun, nofun, nofun, nofun⟩, hwait, ?_, ?_, ?_,
    hwhole⟩
  · simp only [BufferManager.lookup, BufferManager.lookupFast, hloop]
    rfl
  · simp only [BufferManager.lookupOnPrefix, BufferManager.lookupOnPrefixFast, hloop]
    rfl
  · obtain ⟨chain, hrep⟩ := (storeInv_reach hreach).rep
    rw [← hrep.exist_iff, hone]
    exact Bool.false_ne_true

end UnifiedCache.Cache
