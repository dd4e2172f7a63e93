import UnifiedCache.Gsa.Blocks
import Mathlib.Data.List.Basic

/-!
# Proofs: scheduler and worker keep the same blocks

The scheduler keeps `initWindowsSize` blocks in front and the last ones of a number of blocks that is the
top-k length and the prefetch length together (`keptLen`), at the first decode step and as the number of
blocks that the request has then. The worker's slices are the same while their starts are negative.
-/

open Lib

namespace UnifiedCache.Gsa.Blocks

variable {β : Type*} {blockSize a b n : Nat} {cfg : GsaConfig} {table : List β} {request : Request}

/-! ## Block counts -/

theorem ceilDiv_le_iff (hb : 0 < b) : ceilDiv a b ≤ n ↔ a ≤ n * b := by
  rw [ceilDiv, ← Nat.lt_succ_iff, Nat.div_lt_iff_lt_mul hb, Nat.succ_mul]
  omega

theorem lt_ceilDiv_iff (hb : 0 < b) : n < ceilDiv a b ↔ n * b < a := by
  have hle := ceilDiv_le_iff (a := a) (n := n) hb
  omega

theorem ceilDiv_succ (hb : 0 < b) (a : Nat) :
    ceilDiv (a + 1) b = ceilDiv a b + if a % b = 0 then 1 else 0 := by
  have hdiv := Nat.div_add_mod a b
  have hlt := Nat.mod_lt a hb
  rw [Nat.mul_comm] at hdiv
  refine Nat.le_antisymm ?_ ?_
  · rw [ceilDiv_le_iff hb]
    have hself := (ceilDiv_le_iff hb).mp (Nat.le_refl (ceilDiv a b))
    split_ifs with hmod
    · rw [Nat.add_mul]
      omega
    · have hceil : a / b < ceilDiv a b := (lt_ceilDiv_iff hb).mpr (by omega)
      have hmul := Nat.mul_le_mul_right b hceil
      rw [Nat.succ_mul] at hmul
      show a + 1 ≤ ceilDiv a b * b
      omega
  · split_ifs with hmod
    · have hceil : ceilDiv a b ≤ a / b := (ceilDiv_le_iff hb).mpr (by omega)
      have hnext : a / b < ceilDiv (a + 1) b := (lt_ceilDiv_iff hb).mpr (by omega)
      omega
    · have hself := (ceilDiv_le_iff hb).mp (Nat.le_refl (ceilDiv (a + 1) b))
      exact (ceilDiv_le_iff hb).mpr (Nat.le_trans (Nat.le_succ a) hself)

theorem ceilDiv_mul_sub {flaw : Nat} (hflaw : flaw < b) (hn : 0 < n) :
    ceilDiv (n * b - flaw) b = n := by
  have hb : 0 < b := Nat.zero_lt_of_lt hflaw
  obtain ⟨m, rfl⟩ := Nat.exists_eq_succ_of_ne_zero (Nat.pos_iff_ne_zero.mp hn)
  refine Nat.le_antisymm ((ceilDiv_le_iff hb).mpr (Nat.sub_le _ _)) ?_
  rw [Nat.succ_le_iff, lt_ceilDiv_iff hb, Nat.succ_mul]
  omega

/-! ## Lengths -/

theorem computeTopkLen_bounds (hcfg : cfg.minTopkLen ≤ cfg.maxTopkLen) (n : Nat) :
    min cfg.minTopkLen n ≤ cfg.computeTopkLen n ∧ cfg.computeTopkLen n ≤ n := by
  have hle : ceilDiv (n * 3) 10 ≤ n := by
    rw [ceilDiv_le_iff (Nat.succ_pos 9)]
    omega
  unfold GsaConfig.computeTopkLen
  dsimp only
  split_ifs with hmin hmax
  · exact ⟨Nat.le_refl _, Nat.min_le_right _ _⟩
  · exact ⟨Nat.le_trans (Nat.min_le_left _ _) hcfg, by omega⟩
  · exact ⟨Nat.le_trans (Nat.min_le_left _ _) (by omega), hle⟩

/-- The blocks that are kept: those of the top-k and those for prefetching. -/
def keptLen (cfg : GsaConfig) (blocksLen : Nat) : Nat :=
  cfg.computeTopkLen blocksLen + cfg.prefetchLen blocksLen

/-- The start of the worker's last slice is negative. -/
structure Proper (cfg : GsaConfig) (blocksLen : Nat) : Prop where
  keptLen_le : keptLen cfg blocksLen ≤ blocksLen
  init_lt : cfg.initWindowsSize < keptLen cfg blocksLen

theorem keptLen_le (h : cfg.computeTopkLen n ≤ n) : keptLen cfg n ≤ n := by
  unfold keptLen GsaConfig.prefetchLen
  omega

/-! ## Slices -/

theorem slice_zero (l : List β) (stop : Nat) : slice l 0 stop = l.take stop := by
  unfold slice sliceIndex
  rw [if_neg (by omega), if_neg (by omega)]
  simp only [Int.toNat_natCast, Int.toNat_zero, Nat.zero_min, List.drop_zero]
  rw [← List.take_take, List.take_length]

theorem slice_natCast (l : List β) (start stop : Nat) :
    slice l start stop = (l.take stop).drop start := by
  unfold slice sliceIndex
  rw [if_neg (by omega), if_neg (by omega), Int.toNat_natCast, Int.toNat_natCast, ← List.take_take,
    List.take_length]
  by_cases hstart : start ≤ l.length
  · rw [Nat.min_eq_left hstart]
  · rw [List.drop_eq_nil_of_le, List.drop_eq_nil_of_le]
    · rw [List.length_take]
      omega
    · rw [List.length_take]
      omega

theorem slice_end (l : List β) (start : Int) :
    slice l start l.length = l.drop (sliceIndex l.length start) := by
  unfold slice
  have hstop : sliceIndex l.length l.length = l.length := by
    unfold sliceIndex
    rw [if_neg (by omega), Int.toNat_natCast, Nat.min_self]
  rw [hstop, List.take_length]

theorem sliceIndex_le (n : Nat) (i : Int) : sliceIndex n i ≤ n := by
  unfold sliceIndex
  split_ifs
  · omega
  · omega

theorem mem_slice_range {start stop : Int} {i : Nat} :
    i ∈ slice (List.range n) start stop ↔ sliceIndex n start ≤ i ∧ i < sliceIndex n stop := by
  have hstop := sliceIndex_le n stop
  unfold slice
  rw [List.length_range, List.mem_drop_iff_getElem]
  simp only [List.getElem_take, List.getElem_range, List.length_take, List.length_range]
  constructor
  · rintro ⟨j, hj, rfl⟩
    omega
  · rintro ⟨hle, hi⟩
    exact ⟨i - sliceIndex n start, by omega, by omega⟩

theorem kvcacheInitLastChunk_eq (h : Proper cfg n) : kvcacheInitLastChunk cfg n =
    (List.range n).take cfg.initWindowsSize ++
      (List.range n).drop (n + cfg.initWindowsSize - keptLen cfg n) := by
  have hlast := slice_end (List.range n)
    (cfg.initWindowsSize - cfg.computeTopkLen n - cfg.prefetchLen n)
  rw [List.length_range] at hlast
  unfold kvcacheInitLastChunk
  dsimp only
  rw [slice_zero, hlast]
  congr 2
  obtain ⟨hle, hlt⟩ := h
  unfold keptLen at hle hlt ⊢
  unfold sliceIndex
  rw [if_pos (by omega)]
  omega

theorem map_kvcacheInitLastChunk (h : Proper cfg table.length) :
    (kvcacheInitLastChunk cfg table.length).map (table[·]?) =
      (table.take cfg.initWindowsSize ++
        table.drop (table.length + cfg.initWindowsSize - keptLen cfg table.length)).map some := by
  have hrange : (List.range table.length).map (table[·]?) = table.map some := by
    refine List.ext_getElem (by rw [List.length_map, List.length_map, List.length_range]) ?_
    intro i hi _
    rw [List.length_map, List.length_range] at hi
    rw [List.getElem_map, List.getElem_map, List.getElem_range, List.getElem?_eq_getElem hi]
  rw [kvcacheInitLastChunk_eq h, List.map_append, List.map_append, List.map_take, List.map_drop,
    hrange, List.map_take, List.map_drop]

/-! ## The scheduler -/

theorem filter_zipIdx {keep : β × Nat → Bool} (l : List β) (hab : a ≤ b)
    (hkeep : ∀ p : β × Nat, keep p = true ↔ p.2 < a ∨ b ≤ p.2) :
    (l.zipIdx.filter keep).map Prod.fst = l.take a ++ l.drop b := by
  have hfront : (l.take a).zipIdx.filter keep = (l.take a).zipIdx := by
    refine List.filter_eq_self.mpr fun p hp => (hkeep p).mpr (.inl ?_)
    have hlt := List.snd_lt_of_mem_zipIdx hp
    rw [List.length_take] at hlt
    omega
  have hmiddle : (((l.drop a).take (b - a)).zipIdx (l.take a).length).filter keep = [] := by
    refine List.filter_eq_nil_iff.mpr fun p hp hk => ?_
    have hle := List.le_snd_of_mem_zipIdx hp
    have hlt := List.snd_lt_of_mem_zipIdx hp
    rw [List.length_take, List.length_drop] at hlt
    rw [List.length_take] at hle hlt
    rcases (hkeep p).mp hk with hk | hk
    · omega
    · omega
  have hback : ((l.drop b).zipIdx ((l.take a).length + ((l.drop a).take (b - a)).length)).filter keep =
      (l.drop b).zipIdx ((l.take a).length + ((l.drop a).take (b - a)).length) := by
    refine List.filter_eq_self.mpr fun p hp => (hkeep p).mpr (.inr ?_)
    have hle := List.le_snd_of_mem_zipIdx hp
    have hlt := List.snd_lt_of_mem_zipIdx hp
    rw [List.length_take, List.length_take, List.length_drop] at hle hlt
    rw [List.length_drop] at hlt
    omega
  have hsplit : l = l.take a ++ (l.drop a).take (b - a) ++ l.drop b := by
    rw [List.append_assoc]
    conv_lhs => rw [← List.take_append_drop a l, ← List.take_append_drop (b - a) (l.drop a)]
    rw [List.drop_drop, Nat.add_sub_cancel' hab]
  conv_lhs => rw [hsplit]
  rw [List.zipIdx_append, List.zipIdx_append, List.filter_append, List.filter_append,
    List.length_append, Nat.zero_add, Nat.zero_add, hfront, hmiddle, hback, List.append_nil,
    List.map_append, List.zipIdx_map_fst, List.zipIdx_map_fst]

theorem splitBlocks_fst (l : List β) {need : Nat} (hneed : need ≤ l.length) :
    (splitBlocks cfg l need).1 =
      l.take cfg.initWindowsSize ++ l.drop (l.length + cfg.initWindowsSize - need) := by
  refine filter_zipIdx l (by omega) fun p => ?_
  rw [decide_eq_true_eq]
  omega

theorem splitBlocks_all {l : List β} {need : Nat} (hneed : l.length ≤ need) :
    splitBlocks cfg l need = (l, []) := by
  have hkeep : ∀ p : β × Nat, ((p.2 : Int) ≥ l.length - need + cfg.initWindowsSize ∨
      p.2 < cfg.initWindowsSize) := by
    intro p
    omega
  unfold splitBlocks
  simp only [hkeep, decide_true, Bool.not_true, List.filter_false, List.filter_true, List.map_nil,
    List.zipIdx_map_fst]

theorem allocateSlots_eq {p t : Nat} (hbs : 1 < cfg.blockSize) (hlong : segPrefillThreshold < p)
    (hp : cfg.blockSize ≤ p) (ht : p < t) (hkept : 0 < keptLen cfg (ceilDiv p cfg.blockSize))
    (l : List β) :
    allocateSlots cfg ⟨p, t⟩ l =
      let n := ceilDiv t cfg.blockSize - ceilDiv p cfg.blockSize +
        keptLen cfg (ceilDiv p cfg.blockSize)
      let need := if t = p + 1 then keptLen cfg (ceilDiv p cfg.blockSize) else n
      ((splitBlocks cfg l need).1, (splitBlocks cfg l need).2, n) := by
  have hb : 0 < cfg.blockSize := Nat.zero_lt_of_lt hbs
  have hmod := Nat.mod_lt t hb
  have hslots : estimateNumSlotsSparsed cfg ⟨p, t⟩ = some ((ceilDiv t cfg.blockSize -
      ceilDiv p cfg.blockSize + keptLen cfg (ceilDiv p cfg.blockSize)) * cfg.blockSize -
        if t % cfg.blockSize ≠ 0 then cfg.blockSize - t % cfg.blockSize else t % cfg.blockSize) := by
    have hout : ¬(t - p = 0 ∨ p < cfg.blockSize) := by omega
    have hthreshold : ¬p ≤ segPrefillThreshold := by omega
    unfold estimateNumSlotsSparsed Request.numOutputTokens
    dsimp only
    rw [if_neg hout, if_neg hthreshold, Nat.add_assoc, keptLen]
  have hflaw : (if t % cfg.blockSize ≠ 0 then cfg.blockSize - t % cfg.blockSize
      else t % cfg.blockSize) < cfg.blockSize := by
    split_ifs with hzero
    · omega
    · omega
  have hceil := ceilDiv_mul_sub hflaw (Nat.add_pos_right (ceilDiv t cfg.blockSize -
    ceilDiv p cfg.blockSize) hkept)
  unfold allocateSlots
  rw [hslots]
  dsimp only
  unfold numBlocksNeed
  rw [hceil]
  dsimp only
  have hneed : (if p + 1 = t ∧ t % cfg.blockSize = 1 then
      ((ceilDiv t cfg.blockSize - ceilDiv p cfg.blockSize +
        keptLen cfg (ceilDiv p cfg.blockSize) : Nat) : Int) - 1
      else ((ceilDiv t cfg.blockSize - ceilDiv p cfg.blockSize +
        keptLen cfg (ceilDiv p cfg.blockSize) : Nat) : Int)) =
      ((if t = p + 1 then keptLen cfg (ceilDiv p cfg.blockSize)
        else ceilDiv t cfg.blockSize - ceilDiv p cfg.blockSize +
          keptLen cfg (ceilDiv p cfg.blockSize) : Nat) : Int) := by
    by_cases hfirst : t = p + 1
    · subst hfirst
      have hsucc := ceilDiv_succ hb p
      have hiff : (p + 1) % cfg.blockSize = 1 ↔ p % cfg.blockSize = 0 := by
        have hplt := Nat.mod_lt p hb
        rw [Nat.add_mod, Nat.mod_eq_of_lt hbs]
        constructor
        · intro hone
          by_contra hne
          by_cases hlast : p % cfg.blockSize + 1 = cfg.blockSize
          · rw [hlast, Nat.mod_self] at hone
            omega
          · rw [Nat.mod_eq_of_lt (by omega)] at hone
            omega
        · intro hzero
          rw [hzero, Nat.zero_add, Nat.mod_eq_of_lt hbs]
      rw [if_pos rfl]
      by_cases hzero : p % cfg.blockSize = 0
      · rw [if_pos hzero] at hsucc
        rw [if_pos ⟨rfl, hiff.mpr hzero⟩]
        omega
      · rw [if_neg hzero] at hsucc
        rw [if_neg fun hand => hzero (hiff.mp hand.2)]
        omega
    · rw [if_neg hfirst, if_neg fun hand => hfirst hand.1.symm]
  rw [hneed]

/-! ## Runs -/

variable {p : Nat} {s s' : State β} {e : Event β}

/-- The blocks that are kept at the first decode step. -/
def keptBlocks (cfg : GsaConfig) (table : List β) : List β :=
  table.take cfg.initWindowsSize ++
    table.drop (table.length + cfg.initWindowsSize - keptLen cfg table.length)

theorem keptBlocks_length (h : Proper cfg table.length) :
    (keptBlocks cfg table).length = keptLen cfg table.length := by
  obtain ⟨hle, hlt⟩ := h
  rw [keptBlocks, List.length_append, List.length_take, List.length_drop]
  omega

/-- A long prompt with its blocks, whose slices are as they should be. -/
structure Sparse (cfg : GsaConfig) (p : Nat) (table : List β) : Prop where
  one_lt : 1 < cfg.blockSize
  long : segPrefillThreshold < p
  block_le : cfg.blockSize ≤ p
  length : table.length = ceilDiv p cfg.blockSize
  proper : Proper cfg table.length

/-- The blocks of a request in decoding: those of the prompt or those that are kept, and later as many
more as its tokens have entered. -/
structure RunInv (cfg : GsaConfig) (p : Nat) (table : List β) (s : State β) : Prop where
  prompt : s.request.numPromptTokens = p
  blocks : s.request.numTokens = p + 1 ∧ (s.blocks = table ∨ s.blocks = keptBlocks cfg table) ∨
    p + 1 < s.request.numTokens ∧ s.blocks.length + ceilDiv p cfg.blockSize =
      ceilDiv (s.request.numTokens - 1) cfg.blockSize + keptLen cfg table.length

/-- What `allocate_slots` does in a run. -/
structure Allocated (cfg : GsaConfig) (p : Nat) (table : List β) (s : State β) : Prop where
  first : s.request.numTokens = p + 1 →
    (allocateSlots cfg s.request s.blocks).1 = keptBlocks cfg table
  later : p + 1 < s.request.numTokens → (allocateSlots cfg s.request s.blocks).2.1 = []
  length : (allocateSlots cfg s.request s.blocks).1.length + ceilDiv p cfg.blockSize =
    ceilDiv (s.request.numTokens - 1) cfg.blockSize + keptLen cfg table.length
  numBlocks : (allocateSlots cfg s.request s.blocks).2.2 + ceilDiv p cfg.blockSize =
    ceilDiv s.request.numTokens cfg.blockSize + keptLen cfg table.length

theorem ceilDiv_mono (hb : 0 < b) {a a' : Nat} (h : a ≤ a') : ceilDiv a b ≤ ceilDiv a' b :=
  Nat.div_le_div_right (by omega)

theorem RunInv.allocated (hsparse : Sparse cfg p table) (h : RunInv cfg p table s) :
    Allocated cfg p table s := by
  obtain ⟨⟨p', t⟩, blocks⟩ := s
  obtain ⟨rfl, hblocks⟩ := h
  dsimp only at hblocks
  have hb : 0 < cfg.blockSize := Nat.zero_lt_of_lt hsparse.one_lt
  have hlength := hsparse.length
  have hkept : 0 < keptLen cfg (ceilDiv p' cfg.blockSize) := by
    rw [← hlength]
    exact Nat.zero_lt_of_lt hsparse.proper.init_lt
  have ht : p' < t := by
    rcases hblocks with ⟨rfl, -⟩ | ⟨hlt, -⟩
    · exact Nat.lt_succ_self _
    · exact Nat.lt_of_succ_lt hlt
  have hceil := ceilDiv_mono hb (Nat.le_of_lt ht)
  have heq := allocateSlots_eq hsparse.one_lt hsparse.long hsparse.block_le ht hkept blocks
  rw [← hlength] at heq hceil
  dsimp only at heq
  have hnum : (allocateSlots cfg ⟨p', t⟩ blocks).2.2 + ceilDiv p' cfg.blockSize =
      ceilDiv t cfg.blockSize + keptLen cfg table.length := by
    rw [heq, ← hlength]
    dsimp only
    omega
  rcases hblocks with ⟨rfl, hblocks⟩ | ⟨hlt, hcount⟩
  · rw [if_pos rfl] at heq
    have hfirst : (allocateSlots cfg ⟨p', p' + 1⟩ blocks).1 = keptBlocks cfg table := by
      rw [heq]
      rcases hblocks with rfl | rfl
      · exact splitBlocks_fst _ hsparse.proper.keptLen_le
      · exact congrArg Prod.fst (splitBlocks_all (Nat.le_of_eq (keptBlocks_length hsparse.proper)))
    refine ⟨fun _ => hfirst, fun hlt => absurd hlt (Nat.lt_irrefl _), ?_, hnum⟩
    dsimp only
    rw [hfirst, keptBlocks_length hsparse.proper, Nat.add_sub_cancel]
    omega
  · rw [if_neg (by omega)] at heq
    have hle := ceilDiv_mono hb (Nat.sub_le t 1)
    rw [← hlength] at hcount
    have hneed : blocks.length ≤ ceilDiv t cfg.blockSize - table.length +
        keptLen cfg table.length := by omega
    rw [splitBlocks_all hneed] at heq
    refine ⟨fun hfirst => ?_, fun _ => by rw [heq], ?_, hnum⟩
    · dsimp only at hfirst
      omega
    · dsimp only
      rw [heq, ← hlength]
      exact hcount

theorem Allocated.grows (hsparse : Sparse cfg p table) (h : Allocated cfg p table s)
    (ht : p < s.request.numTokens) :
    (allocateSlots cfg s.request s.blocks).2.2 - (allocateSlots cfg s.request s.blocks).1.length =
      if (s.request.numTokens - 1) % cfg.blockSize = 0 then 1 else 0 := by
  have hsucc := ceilDiv_succ (Nat.zero_lt_of_lt hsparse.one_lt) (s.request.numTokens - 1)
  have hcancel : s.request.numTokens - 1 + 1 = s.request.numTokens := by omega
  rw [hcancel] at hsucc
  have hlength := h.length
  have hnum := h.numBlocks
  omega

theorem RunInv.lt (h : RunInv cfg p table s) : p < s.request.numTokens := by
  rcases h.blocks with ⟨heq, -⟩ | ⟨hlt, -⟩
  · omega
  · omega

theorem RunInv.step (hsparse : Sparse cfg p table) (h : RunInv cfg p table s)
    (hstep : step cfg s e = some s') : RunInv cfg p table s' := by
  have hall := h.allocated hsparse
  have hlt := h.lt
  cases e with
  | decode new =>
    simp only [Blocks.step] at hstep
    split_ifs at hstep with hnew
    cases hstep
    have hgrows := hall.grows hsparse hlt
    have hsucc := ceilDiv_succ (Nat.zero_lt_of_lt hsparse.one_lt) (s.request.numTokens - 1)
    have hcancel : s.request.numTokens - 1 + 1 = s.request.numTokens := by omega
    rw [hcancel] at hsucc
    have hlength := hall.length
    refine ⟨h.prompt, .inr ⟨Nat.succ_lt_succ hlt, ?_⟩⟩
    dsimp only
    rw [List.length_append, hnew, hgrows, Nat.add_sub_cancel, hsucc]
    omega
  | exhausted =>
    simp only [Blocks.step] at hstep
    split_ifs at hstep with hfew
    cases hstep
    refine ⟨h.prompt, ?_⟩
    rcases h.blocks with ⟨heq, -⟩ | ⟨hlater, -⟩
    · exact .inl ⟨heq, .inr (hall.first heq)⟩
    · exact .inr ⟨hlater, hall.length⟩

theorem RunInv.of_reach (hsparse : Sparse cfg p table) (h : (machine cfg p table).Reachable s) :
    RunInv cfg p table s := by
  refine h.inv ?_ fun s e s' hinv _ hstep => hinv.step hsparse hstep
  rintro s rfl
  exact ⟨rfl, .inl ⟨rfl, .inl rfl⟩⟩

/-! ## The configuration -/

theorem setConfig_min_le_max (blockSize : Nat) :
    (GsaConfig.setConfig blockSize).minTopkLen ≤ (GsaConfig.setConfig blockSize).maxTopkLen :=
  Nat.div_le_div_right (by omega)

theorem ceilDiv_pos (hb : 0 < b) (ha : 0 < a) : 0 < ceilDiv a b := by
  rw [lt_ceilDiv_iff hb]
  omega

theorem setConfig_pos (hb : 0 < blockSize) : 0 < (GsaConfig.setConfig blockSize).initWindowsSize ∧
    0 < (GsaConfig.setConfig blockSize).numPrefetchBlocks ∧
    0 < (GsaConfig.setConfig blockSize).minTopkLen :=
  ⟨ceilDiv_pos hb (by omega), ceilDiv_pos hb (by omega), ceilDiv_pos hb (by omega)⟩

theorem setConfig_init_eq (hb : 128 ≤ blockSize) :
    (GsaConfig.setConfig blockSize).initWindowsSize = 1 := by
  have hpos := (@setConfig_pos blockSize (by omega)).1
  have hle : (GsaConfig.setConfig blockSize).initWindowsSize ≤ 1 :=
    (ceilDiv_le_iff (by omega)).mpr (by omega)
  omega

theorem init_lt_computeTopkLen (hb : 0 < blockSize) (hsmall : blockSize < 4096)
    (hlong : segPrefillThreshold < p) :
    (GsaConfig.setConfig blockSize).initWindowsSize <
      (GsaConfig.setConfig blockSize).computeTopkLen (ceilDiv p blockSize) := by
  have hbound := (computeTopkLen_bounds (setConfig_min_le_max blockSize) (ceilDiv p blockSize)).1
  have hmin : (GsaConfig.setConfig blockSize).minTopkLen ≤ ceilDiv p blockSize := by
    refine ceilDiv_mono hb ?_
    unfold segPrefillThreshold at hlong
    omega
  have hinit : (GsaConfig.setConfig blockSize).initWindowsSize <
      (GsaConfig.setConfig blockSize).minTopkLen := by
    refine (lt_ceilDiv_iff hb).mpr ?_
    by_cases hlarge : 128 ≤ blockSize
    · rw [setConfig_init_eq hlarge]
      omega
    · have hself : (GsaConfig.setConfig blockSize).initWindowsSize ≤ 128 / blockSize + 1 := by
        refine (ceilDiv_le_iff hb).mpr ?_
        have hdiv := Nat.div_add_mod 128 blockSize
        have hmod := Nat.mod_lt 128 hb
        rw [Nat.mul_comm] at hdiv
        rw [Nat.add_mul]
        omega
      have hmul := Nat.mul_le_mul_right blockSize hself
      have hdiv := Nat.div_mul_le_self 128 blockSize
      rw [Nat.add_mul] at hmul
      omega
  omega

/-- The slices of the worker have the same indices when those of `_get_sparse_and_free_block` do not
start at the front, or there are only two blocks. -/
theorem slices_union (hle : cfg.computeTopkLen n ≤ n)
    (hcond : cfg.initWindowsSize < cfg.computeTopkLen n ∨ n = 2 ∧ cfg.initWindowsSize = 1 ∧
      0 < cfg.computeTopkLen n ∧ 0 < cfg.numPrefetchBlocks) (i : Nat) :
    i ∈ kvcacheInitLastChunk cfg n ↔ i ∈ (getSparseAndFreeBlock cfg n).1 ∨
      i ∈ (getSparseAndFreeBlock cfg n).2 := by
  unfold getSparseAndFreeBlock kvcacheInitLastChunk GsaConfig.prefetchLen
  dsimp only
  split_ifs with hlt
  · simp only [List.mem_append, mem_slice_range, sliceIndex]
    split_ifs <;> omega
  · simp only [List.mem_append, mem_slice_range, List.mem_range, List.not_mem_nil, or_false,
      sliceIndex]
    split_ifs <;> omega

theorem allocateSlots_length_le (cfg : GsaConfig) (request : Request) (l : List β) :
    (allocateSlots cfg request l).1.length ≤ l.length := by
  unfold allocateSlots
  split
  · exact Nat.le_refl _
  · unfold splitBlocks
    dsimp only
    rw [List.length_map]
    exact Nat.le_trans (List.length_filter_le _ _) (Nat.le_of_eq List.length_zipIdx)

/-- **Scheduler and worker keep the same blocks** exactly when the top-k length is more than the
number of blocks in front, or the prompt has two blocks. -/
theorem same_blocks_iff (hbs : 1 < blockSize) (hlong : segPrefillThreshold < p)
    (hlength : table.length = ceilDiv p blockSize) :
    SameBlocks blockSize p table ↔
      (GsaConfig.setConfig blockSize).initWindowsSize <
        (GsaConfig.setConfig blockSize).computeTopkLen (ceilDiv p blockSize) ∨
      ceilDiv p blockSize = 2 := by
  have hb : 0 < blockSize := Nat.zero_lt_of_lt hbs
  obtain ⟨hinit, hprefetch, hmin⟩ := setConfig_pos hb
  obtain ⟨hlow, hhigh⟩ :=
    computeTopkLen_bounds (setConfig_min_le_max blockSize) (ceilDiv p blockSize)
  have hpos : 0 < ceilDiv p blockSize := ceilDiv_pos hb (by omega)
  have hp : p ≤ ceilDiv p blockSize * blockSize := (ceilDiv_le_iff hb).mp (Nat.le_refl _)
  unfold segPrefillThreshold at hlong
  constructor
  · intro h
    by_contra hnot
    rw [not_or] at hnot
    obtain ⟨hle, htwo⟩ := hnot
    have hlarge : 4096 ≤ blockSize := by
      by_contra hsmall
      exact hle (init_lt_computeTopkLen hb (by omega) hlong)
    have hone := @setConfig_init_eq blockSize (by omega)
    have hprefetchOne : (GsaConfig.setConfig blockSize).numPrefetchBlocks = 1 := hone
    have htopk : (GsaConfig.setConfig blockSize).computeTopkLen (ceilDiv p blockSize) = 1 := by
      omega
    by_cases hsingle : ceilDiv p blockSize = 1
    · -- The only block is in both slices of the worker.
      have hkept := congrArg List.length (h.first _ (.init rfl) rfl)
      have hshort := allocateSlots_length_le (.setConfig blockSize) ⟨p, p + 1⟩ table
      rw [List.length_map, List.length_map, hlength, hsingle] at hkept
      rw [hsingle] at htopk
      rw [hlength, hsingle, hkept] at hshort
      unfold kvcacheInitLastChunk GsaConfig.prefetchLen at hshort
      rw [hone, htopk, hprefetchOne] at hshort
      revert hshort
      decide
    · -- The second block is only in a slice of `_get_sparse_and_free_block`.
      have hmem := (h.union 1).mpr
      rw [hlength] at hmem
      unfold getSparseAndFreeBlock kvcacheInitLastChunk GsaConfig.prefetchLen at hmem
      dsimp only at hmem
      rw [htopk, hone, hprefetchOne, if_pos (by omega)] at hmem
      have hback : min 1 (ceilDiv p blockSize - 1) = 1 := by omega
      rw [hback] at hmem
      simp only [List.mem_append, mem_slice_range, sliceIndex] at hmem
      split_ifs at hmem <;> omega
  · intro hcond
    have hblocks : 1 < ceilDiv p blockSize := by omega
    have hblock : blockSize < p := by
      have := (lt_ceilDiv_iff hb).mp hblocks
      omega
    have hcond' : (GsaConfig.setConfig blockSize).initWindowsSize <
        (GsaConfig.setConfig blockSize).computeTopkLen table.length ∨ table.length = 2 ∧
        (GsaConfig.setConfig blockSize).initWindowsSize = 1 ∧
        0 < (GsaConfig.setConfig blockSize).computeTopkLen table.length ∧
        0 < (GsaConfig.setConfig blockSize).numPrefetchBlocks := by
      rw [hlength]
      refine hcond.imp id fun htwo => ⟨htwo, setConfig_init_eq ?_, by omega, hprefetch⟩
      rw [htwo] at hp
      omega
    have hproper : Proper (.setConfig blockSize) table.length := by
      refine ⟨keptLen_le (by rw [hlength]; exact hhigh), ?_⟩
      unfold keptLen GsaConfig.prefetchLen
      omega
    have hsparse : Sparse (.setConfig blockSize) p table :=
      ⟨hbs, hlong, Nat.le_of_lt hblock, hlength, hproper⟩
    refine ⟨fun s hs hfirst => ?_, slices_union (by rw [hlength]; exact hhigh) hcond',
      fun s hs hlater => ?_, fun s new s' hs hstep => ?_⟩
    · have hall := (RunInv.of_reach hsparse hs).allocated hsparse
      rw [hall.first hfirst, map_kvcacheInitLastChunk hproper, keptBlocks]
    · exact ((RunInv.of_reach hsparse hs).allocated hsparse).later hlater
    · have hinv := RunInv.of_reach hsparse hs
      have hgrows := (hinv.allocated hsparse).grows hsparse hinv.lt
      simp only [machine, step] at hstep
      split_ifs at hstep with hnew
      rw [hnew, hgrows]
      rfl

/-- A prompt of 8401 tokens in blocks of 128 tokens: scheduler and worker keep the same blocks. -/
theorem same_blocks_128 : SameBlocks 128 8401 (List.range 66) :=
  (same_blocks_iff (by decide) (by decide) (by decide)).mpr (.inl (by decide))

/-- In blocks of 4096 tokens the same prompt has three blocks. The first and the last are kept, and
`_get_sparse_and_free_block` has all three. -/
theorem same_blocks_4096 : ¬ SameBlocks 4096 8401 (List.range 3) ∧
    kvcacheInitLastChunk (.setConfig 4096) 3 = [0, 2] ∧
    getSparseAndFreeBlock (.setConfig 4096) 3 = ([0, 0, 1, 2], []) := by
  refine ⟨fun h => ?_, by decide, by decide⟩
  have hmem := (h.union 1).mpr (.inl (by decide))
  revert hmem
  decide

end UnifiedCache.Gsa.Blocks
