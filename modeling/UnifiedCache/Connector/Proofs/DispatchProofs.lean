import UnifiedCache.Connector.Dispatch
import Mathlib.Data.List.Nodup

/-!
# Proofs: hashes and blocks of the GPU go together

The metadata of a request is right for the request as vLLM has it (`MetaOk`): the hashes are those of
the request's tokens, the block list is the block table, and the tokens processed are the tokens
computed until the prompt is through. A lookup makes it so and every later event keeps it; only a
lookup that returns early leaves the metadata of an earlier life of the request in place.
-/

open Function Lib

namespace UnifiedCache.Connector

variable {η : Type} {cfg : Config η} {s s' : State η} {r r' : Request} {m : RequestMeta η}

/-! ## Slices -/

theorem getElem?_slice {α : Type*} (l : List α) (a b i : Nat) :
    (slice l a b)[i]? = if a + i < b then l[a + i]? else none := by
  unfold slice
  rw [List.getElem?_take]
  have hiff : i < b - a ↔ a + i < b := by omega
  simp only [hiff, List.getElem?_drop]

theorem length_slice {α : Type*} (l : List α) (a b : Nat) :
    (slice l a b).length = min (b - a) (l.length - a) := by
  simp [slice]

theorem mem_zip_slice {α β : Type*} {l : List α} {l' : List β} {a b : Nat} {p : α × β}
    (h : p ∈ (slice l a b).zip (slice l' a b)) :
    ∃ j, a ≤ j ∧ j < b ∧ l[j]? = some p.1 ∧ l'[j]? = some p.2 := by
  obtain ⟨i, hi⟩ := List.getElem?_of_mem h
  rw [List.getElem?_zip_eq_some, getElem?_slice, getElem?_slice] at hi
  split_ifs at hi with hlt
  · exact ⟨a + i, by omega, hlt, hi.1, hi.2⟩
  · exact absurd hi.1 (by simp)

theorem mem_zip_slice_of {α β : Type*} {l : List α} {l' : List β} {a b j : Nat} {x : α} {y : β}
    (ha : a ≤ j) (hb : j < b) (hx : l[j]? = some x) (hy : l'[j]? = some y) :
    (x, y) ∈ (slice l a b).zip (slice l' a b) := by
  refine List.mem_of_getElem? (i := j - a) ?_
  rw [List.getElem?_zip_eq_some, getElem?_slice, getElem?_slice, if_pos (by omega),
    if_pos (by omega), show a + (j - a) = j by omega]
  exact ⟨hx, hy⟩

/-! ## Hashes -/

/-- The hash a block's hash is chained to. -/
def parentHash (cfg : Config η) (tokens : List Token) : Nat → η
  | 0 => cfg.seed
  | j + 1 => blockHash cfg tokens j

theorem blockHash_eq (cfg : Config η) (tokens : List Token) (j : Nat) :
    blockHash cfg tokens j = cfg.requestHasher (parentHash cfg tokens j)
      (slice tokens (j * cfg.hashBlockSize) (j * cfg.hashBlockSize + cfg.hashBlockSize)) := by
  cases j with
  | zero => simp only [blockHash, parentHash, Nat.zero_mul, Nat.zero_add]
  | succ j => rfl

theorem length_block {tokens : List Token} {bs i : Nat} (hbs : 0 < bs) :
    (slice tokens (i * bs) (i * bs + bs)).length < bs ↔ ¬(i + 1) * bs ≤ tokens.length := by
  rw [length_slice, Nat.add_mul, Nat.one_mul]
  omega

theorem getElem?_generateHashLoop (cfg : Config η) (tokens : List Token) (k : Nat) :
    ∀ i j, (generateHashLoop cfg.requestHasher cfg.hashBlockSize tokens
      ((List.range' i k).map (· * cfg.hashBlockSize)) (parentHash cfg tokens i))[j]? =
      if j < k ∧ (i + j + 1) * cfg.hashBlockSize ≤ tokens.length then
        some (blockHash cfg tokens (i + j)) else none := by
  have hbs := cfg.hashBlockSize_pos
  induction k with
  | zero =>
    intro i j
    simp [generateHashLoop]
  | succ k ih =>
    intro i j
    rw [List.range'_succ, List.map_cons, generateHashLoop]
    by_cases hfull : (i + 1) * cfg.hashBlockSize ≤ tokens.length
    · have hblock : ¬(slice tokens (i * cfg.hashBlockSize)
          (i * cfg.hashBlockSize + cfg.hashBlockSize)).length < cfg.hashBlockSize :=
        fun h => (length_block hbs).mp h hfull
      simp only [hblock, if_false]
      rw [← blockHash_eq]
      cases j with
      | zero => simp only [List.getElem?_cons_zero, Nat.add_zero, hfull, Nat.zero_lt_succ, and_self,
          if_true]
      | succ j =>
        have hrec := ih (i + 1) j
        rw [show i + 1 + j = i + (j + 1) by omega] at hrec
        have hiff : j < k ↔ j + 1 < k + 1 := by omega
        rw [List.getElem?_cons_succ]
        refine hrec.trans ?_
        simp only [hiff]
    · have hblock : (slice tokens (i * cfg.hashBlockSize)
          (i * cfg.hashBlockSize + cfg.hashBlockSize)).length < cfg.hashBlockSize :=
        (length_block hbs).mpr hfull
      simp only [hblock, if_true, List.getElem?_nil]
      rw [if_neg]
      rintro ⟨-, hj⟩
      have : (i + 1) * cfg.hashBlockSize ≤ (i + j + 1) * cfg.hashBlockSize :=
        Nat.mul_le_mul_right _ (by omega)
      omega

theorem getElem?_generateHash (cfg : Config η) (tokens : List Token) (j : Nat) :
    (generateHash cfg.requestHasher cfg.hashBlockSize tokens cfg.seed)[j]? =
      if (j + 1) * cfg.hashBlockSize ≤ tokens.length then some (blockHash cfg tokens j)
      else none := by
  have hloop := getElem?_generateHashLoop cfg tokens
    ((tokens.length + cfg.hashBlockSize - 1) / cfg.hashBlockSize) 0 j
  rw [Nat.zero_add] at hloop
  unfold generateHash
  rw [List.range_eq_range']
  refine hloop.trans ?_
  by_cases hfull : (j + 1) * cfg.hashBlockSize ≤ tokens.length
  · have hlt : j < (tokens.length + cfg.hashBlockSize - 1) / cfg.hashBlockSize := by
      rw [Nat.lt_div_iff_mul_lt cfg.hashBlockSize_pos]
      have := cfg.hashBlockSize_pos
      rw [Nat.add_mul] at hfull
      omega
    rw [if_pos ⟨hlt, hfull⟩, if_pos hfull]
  · rw [if_neg fun h => hfull h.2, if_neg hfull]

theorem blockHash_append (cfg : Config η) (tokens more : List Token) {j : Nat}
    (h : (j + 1) * cfg.hashBlockSize ≤ tokens.length) :
    blockHash cfg (tokens ++ more) j = blockHash cfg tokens j := by
  have hslice : ∀ i, (i + 1) * cfg.hashBlockSize ≤ tokens.length →
      slice (tokens ++ more) (i * cfg.hashBlockSize) (i * cfg.hashBlockSize + cfg.hashBlockSize) =
        slice tokens (i * cfg.hashBlockSize) (i * cfg.hashBlockSize + cfg.hashBlockSize) := by
    intro i hi
    rw [Nat.add_mul, Nat.one_mul] at hi
    refine List.ext_getElem? fun k => ?_
    rw [getElem?_slice, getElem?_slice]
    split_ifs with hk
    · rw [List.getElem?_append_left (by omega)]
    · rfl
  induction j with
  | zero => rw [blockHash_eq, blockHash_eq, hslice 0 h]; rfl
  | succ j ih =>
    have hj : (j + 1) * cfg.hashBlockSize ≤ tokens.length := by
      rw [Nat.add_mul] at h
      omega
    rw [blockHash_eq, blockHash_eq, hslice (j + 1) h]
    simp only [parentHash, ih hj]

theorem length_generateHash (cfg : Config η) (tokens : List Token) :
    (generateHash cfg.requestHasher cfg.hashBlockSize tokens cfg.seed).length =
      tokens.length / cfg.hashBlockSize := by
  have hnone : ∀ j, (generateHash cfg.requestHasher cfg.hashBlockSize tokens cfg.seed).length ≤ j ↔
      tokens.length / cfg.hashBlockSize ≤ j := by
    intro j
    rw [← List.getElem?_eq_none_iff, getElem?_generateHash]
    have hdiv := Nat.le_div_iff_mul_le (x := j + 1) (y := tokens.length) cfg.hashBlockSize_pos
    split_ifs with hfull
    · have := hdiv.mpr hfull
      simp only [false_iff]
      omega
    · have := mt hdiv.mp hfull
      simp only [true_iff]
      omega
  exact Nat.le_antisymm ((hnone _).mpr (Nat.le_refl _)) ((hnone _).mp (Nat.le_refl _))

/-! ## The metadata of a request -/

/-- The metadata of a request is right for the request as vLLM has it. -/
structure MetaOk (cfg : Config η) (r : Request) (m : RequestMeta η) : Prop where
  numTokenIds_le : m.numTokenIds ≤ r.allTokenIds.length
  threshold : cfg.persistTokenThreshold ≤ r.allTokenIds.length
  hashes : ∀ j, m.ucmBlockIds[j]? = if (j + 1) * cfg.hashBlockSize ≤ m.numTokenIds then
    some (blockHash cfg r.allTokenIds j) else none
  hbm_le : m.hbmHitBlockNum ≤ m.totalHitBlockNum
  total_le : m.totalHitBlockNum * cfg.blockSize ≤ m.numTokenIds
  /-- Until the first step it is as the lookup has left it. -/
  fresh : m.vllmBlockIds = [] → m.numTokenIds = r.allTokenIds.length ∧
    m.tokenProcessed = m.totalHitBlockNum * cfg.blockSize
  /-- With an answer for vLLM, only fresh metadata has tokens to process. -/
  waiting : r.status = .waiting ∨ r.status = .preempted → ∀ numLocal numComputed,
    r.matched = some (numLocal, numComputed) →
      m.totalHitBlockNum * cfg.blockSize ≤ numComputed + 1 ∧
      (m.tokenProcessed < m.numTokenIds → m.vllmBlockIds = [] ∧ m.tokenProcessed ≤ numComputed)
  /-- While there are tokens to process the block list is the table, and those processed are
  computed. -/
  running : r.status = .running → m.vllmBlockIds ≠ [] ∧
    (m.tokenProcessed < m.numTokenIds → m.vllmBlockIds = r.blockTable ∧
      m.tokenProcessed ≤ r.numComputedTokens ∧
      (m.numTokenIds = r.allTokenIds.length ∨ r.allTokenIds.length ≤ r.numComputedTokens + 1))

/-- The invariant of the scheduler. -/
structure SchedulerInv (cfg : Config η) (s : State η) : Prop where
  unknown : ∀ id, (s.requests id).status = .unknown → s.requestsMeta id = none
  metas : ∀ id m, s.requestsMeta id = some m → MetaOk cfg (s.requests id) m

/-! ## Lookups -/

variable {n : Nat}

theorem externalHitBlocks_mul_le {lookup : Option Int} (h : LookupOk lookup n) :
    externalHitBlocks cfg lookup * cfg.cpWorldSize ≤ n := by
  cases lookup with
  | none =>
    rw [externalHitBlocks, Nat.zero_mul]
    exact Nat.zero_le n
  | some hit =>
    have hhit := h hit rfl
    have hdiv : (hit + 1).toNat / cfg.cpWorldSize * cfg.cpWorldSize ≤ (hit + 1).toNat :=
      Nat.div_mul_le_self _ _
    show (hit + 1).toNat / cfg.cpWorldSize * cfg.cpWorldSize ≤ n
    omega

theorem Config.blocks_le {k : Nat} (h : k * cfg.cpWorldSize ≤ n / cfg.hashBlockSize) :
    k * cfg.blockSize ≤ n := by
  rw [Nat.le_div_iff_mul_le cfg.hashBlockSize_pos] at h
  rw [blockSize, Nat.mul_comm cfg.hashBlockSize, ← Nat.mul_assoc]
  exact h

theorem getNumNewMatchedTokens_spec (metas : RequestsMeta η) (id : ReqId) {numLocal : Nat}
    {lookup : Option Int} (hlocal : numLocal % cfg.blockSize = 0)
    (hlookup : LookupOk lookup (r.allTokenIds.length / cfg.hashBlockSize -
      numLocal / cfg.blockSize * cfg.cpWorldSize)) :
    (getNumNewMatchedTokens cfg metas id r.allTokenIds numLocal lookup = (metas, 0) ∧
      (r.allTokenIds.length < cfg.persistTokenThreshold ∨
        r.allTokenIds.length / cfg.blockSize ≤ numLocal / cfg.blockSize)) ∨
    ∃ m external, getNumNewMatchedTokens cfg metas id r.allTokenIds numLocal lookup =
      (update metas id (some m), external) ∧
      m.hbmHitBlockNum * cfg.blockSize = numLocal ∧
      numLocal + external ≤ m.totalHitBlockNum * cfg.blockSize ∧
      m.vllmBlockIds = [] ∧
      ∀ r' : Request, r'.allTokenIds = r.allTokenIds → r'.status ≠ .running →
        r'.matched = some (numLocal, numLocal + external) → MetaOk cfg r' m := by
  have hlength := length_generateHash cfg r.allTokenIds
  unfold getNumNewMatchedTokens
  dsimp only
  by_cases hthreshold : cfg.persistTokenThreshold > r.allTokenIds.length
  · rw [if_pos hthreshold]
    exact .inl ⟨rfl, .inl hthreshold⟩
  · rw [if_neg hthreshold]
    by_cases hnone : (generateHash cfg.requestHasher cfg.hashBlockSize r.allTokenIds cfg.seed).drop
        (numLocal / cfg.blockSize * cfg.cpWorldSize) = []
    · rw [if_pos hnone]
      rw [List.drop_eq_nil_iff, hlength] at hnone
      refine .inl ⟨rfl, .inr ?_⟩
      have hdiv := Nat.div_le_div_right (c := cfg.cpWorldSize) hnone
      rwa [Nat.mul_div_cancel _ cfg.cpWorldSize_pos, Nat.div_div_eq_div_mul] at hdiv
    · rw [if_neg hnone]
      rw [List.drop_eq_nil_iff, hlength] at hnone
      have hhits : (numLocal / cfg.blockSize + externalHitBlocks cfg lookup) * cfg.cpWorldSize ≤
          r.allTokenIds.length / cfg.hashBlockSize := by
        have hhit : externalHitBlocks cfg lookup * cfg.cpWorldSize ≤ _ :=
          externalHitBlocks_mul_le hlookup
        rw [Nat.add_mul]
        omega
      generalize externalHitBlocks cfg lookup = hits at hhits ⊢
      have htotal : (numLocal / cfg.blockSize + hits) * cfg.blockSize ≤ r.allTokenIds.length :=
        Config.blocks_le hhits
      have hmul : numLocal / cfg.blockSize * cfg.blockSize = numLocal :=
        Nat.div_mul_cancel (Nat.dvd_of_mod_eq_zero hlocal)
      have hsum : (numLocal / cfg.blockSize + hits) * cfg.blockSize =
          numLocal + hits * cfg.blockSize := by rw [Nat.add_mul, hmul]
      refine .inr ⟨_, _, rfl, hmul, ?_, rfl, ?_⟩
      · dsimp only
        split_ifs <;> omega
      intro r' htokens hstatus hmatched
      refine ⟨Nat.le_of_eq (congrArg _ htokens.symm), by rw [htokens]; omega, ?_,
        Nat.le_add_right _ _, htotal, ?_, ?_, ?_⟩
      · intro j
        rw [htokens]
        exact getElem?_generateHash cfg r.allTokenIds j
      · intro _
        rw [htokens]
        exact ⟨rfl, rfl⟩
      · intro _ l c heq
        rw [hmatched] at heq
        cases heq
        dsimp only
        constructor
        · split_ifs <;> omega
        · intro hlt
          rw [if_neg (by omega), hsum]
          exact ⟨rfl, Nat.le_refl _⟩
      · intro hrunning
        exact absurd hrunning hstatus

/-! ## Dispatches -/

theorem MetaOk.aligned (h : MetaOk cfg r m) {table : List VllmBlock} {a b bound : Nat}
    (htokens : b * cfg.blockSize ≤ m.numTokenIds) (htable : b ≤ table.length)
    (hbound : b * cfg.blockSize ≤ bound) (hr' : r'.allTokenIds = r.allTokenIds)
    (htable' : r'.blockTable = table) :
    Aligned cfg r' bound a
      (slice m.ucmBlockIds (a * cfg.cpWorldSize) (b * cfg.cpWorldSize), slice table a b) := by
  have hlength : (slice table a b).length = b - a := by
    rw [length_slice]
    omega
  refine ⟨?_, ?_, ?_⟩
  · refine List.ext_getElem? fun j => ?_
    rw [getElem?_slice, List.getElem?_map, hr', hlength, Nat.sub_mul]
    split_ifs with hlt
    · have hfull : (a * cfg.cpWorldSize + j + 1) * cfg.hashBlockSize ≤ m.numTokenIds := by
        refine Nat.le_trans ?_ htokens
        have := Nat.mul_le_mul_right cfg.hashBlockSize
          (show a * cfg.cpWorldSize + j + 1 ≤ b * cfg.cpWorldSize from hlt)
        rwa [Nat.mul_assoc, Nat.mul_comm cfg.cpWorldSize] at this
      rw [h.hashes, if_pos hfull, List.getElem?_range' (by omega)]
      simp
    · rw [List.getElem?_eq_none (by rw [List.length_range']; omega)]
      rfl
  · intro j v hv
    dsimp only at hv
    rw [getElem?_slice] at hv
    split_ifs at hv
    rw [htable']
    exact hv
  · intro j hj
    dsimp only at hj
    rw [hlength] at hj
    exact Nat.le_trans (Nat.mul_le_mul_right _ (by omega)) hbound

theorem Aligned.nil (cfg : Config η) (r : Request) (bound : Nat) : Aligned cfg r bound 0 ([], []) :=
  ⟨by simp, by simp, by simp⟩

theorem Aligned.pairs {bound start : Nat} {blocks : List η × List VllmBlock}
    (h : Aligned cfg r bound start blocks) (hcp : cfg.cpWorldSize = 1) :
    blocks.1.length = blocks.2.length ∧ ∀ p ∈ blocks.1.zip blocks.2, ∃ j,
      p.1 = blockHash cfg r.allTokenIds j ∧ (j + 1) * cfg.blockSize ≤ bound ∧
      r.blockTable[j]? = some p.2 := by
  have hhashes := h.hashes
  rw [hcp, Nat.mul_one, Nat.mul_one] at hhashes
  refine ⟨by rw [hhashes, List.length_map, List.length_range'], ?_⟩
  intro p hp
  obtain ⟨i, hi⟩ := List.getElem?_of_mem hp
  rw [List.getElem?_zip_eq_some] at hi
  have hlt : i < blocks.2.length := (List.getElem?_eq_some_iff.mp hi.2).1
  refine ⟨start + i, ?_, h.bound i hlt, h.table i p.2 hi.2⟩
  rw [hhashes, List.getElem?_map, List.getElem?_range' hlt] at hi
  simpa using hi.1.symm

theorem DispatchAligned.dispatchOk {d : RequestDispatchMeta η} (h : DispatchAligned cfg r d)
    (hcp : cfg.cpWorldSize = 1) : DispatchOk cfg r d := by
  obtain ⟨_, hload⟩ := h.load
  obtain ⟨_, hdump⟩ := h.dump
  exact ⟨(hload.pairs hcp).1, (hdump.pairs hcp).1, (hload.pairs hcp).2, (hdump.pairs hcp).2⟩

theorem Config.blockSize_eq (hcp : cfg.cpWorldSize = 1) : cfg.blockSize = cfg.hashBlockSize := by
  rw [Config.blockSize, hcp, Nat.mul_one]

theorem Config.blockSize_pos (cfg : Config η) : 0 < cfg.blockSize :=
  Nat.mul_pos cfg.hashBlockSize_pos cfg.cpWorldSize_pos

theorem MetaOk.dump_aligned (h : MetaOk cfg r m) {table : List VllmBlock} {computed : Nat}
    (htokens : m.tokenProcessed + n ≤ m.numTokenIds) (hcomputed : m.tokenProcessed ≤ computed)
    (htable : computed + n ≤ table.length * cfg.blockSize) (hr' : r'.allTokenIds = r.allTokenIds)
    (htable' : r'.blockTable = table) :
    Aligned cfg r' (computed + n) (m.tokenProcessed / cfg.blockSize)
      (slice m.ucmBlockIds (m.tokenProcessed / cfg.blockSize * cfg.cpWorldSize)
        ((m.tokenProcessed + n) / cfg.blockSize * cfg.cpWorldSize),
      slice table (m.tokenProcessed / cfg.blockSize) ((m.tokenProcessed + n) / cfg.blockSize)) := by
  have hend : (m.tokenProcessed + n) / cfg.blockSize ≤ table.length := by
    have := Nat.div_le_div_right (c := cfg.blockSize)
      (show m.tokenProcessed + n ≤ table.length * cfg.blockSize by omega)
    rwa [Nat.mul_div_cancel _ cfg.blockSize_pos] at this
  have hfull := Nat.div_mul_le_self (m.tokenProcessed + n) cfg.blockSize
  exact h.aligned (Nat.le_trans hfull htokens) hend (by omega) hr' htable'

theorem Request.begin_spec {bs : Nat} {blocks : List VllmBlock}
    (h : r.begin bs blocks n = some r') : ∃ numLocal numComputed,
      r.matched = some (numLocal, numComputed) ∧ 1 ≤ n ∧ n + numComputed ≤ r.allTokenIds.length ∧
      numComputed + n ≤ blocks.length * bs ∧
      r' = { r with
        status := .running, numComputedTokens := numComputed + n, blockTable := blocks,
        matched := Option.none, numLocalTokens := numLocal,
        numCachedTokens := some (r.numCachedTokens.getD numComputed) } := by
  unfold Request.begin at h
  split at h
  · simp at h
  · next numLocal numComputed hmatched =>
    split_ifs at h with hguard
    exact ⟨numLocal, numComputed, hmatched, hguard.1, hguard.2.1, hguard.2.2, (Option.some.inj h).symm⟩

theorem MetaOk.begin (h : MetaOk cfg r m) {blocks : List VllmBlock}
    (hstatus : r.status = .waiting ∨ r.status = .preempted)
    (hbegin : r.begin cfg.blockSize blocks n = some r') :
    MetaOk cfg r' (generateDispatchMeta cfg m n blocks true).1 ∧
      DispatchAligned cfg r' (generateDispatchMeta cfg m n blocks true).2 := by
  obtain ⟨numLocal, numComputed, hmatched, hn, htokens, hblocks, rfl⟩ := Request.begin_spec hbegin
  obtain ⟨htotal, hprocess⟩ := h.waiting hstatus numLocal numComputed hmatched
  have hpos := cfg.blockSize_pos
  have hnonempty : blocks ≠ [] := by
    rintro rfl
    simp only [List.length_nil, Nat.zero_mul] at hblocks
    omega
  have htable : m.totalHitBlockNum ≤ blocks.length := by
    have : m.totalHitBlockNum * cfg.blockSize ≤ blocks.length * cfg.blockSize := by omega
    exact Nat.le_of_mul_le_mul_right this hpos
  have hload : ∀ r' : Request, r'.allTokenIds = r.allTokenIds → r'.blockTable = blocks →
      Aligned cfg r' r'.allTokenIds.length m.hbmHitBlockNum
        (slice m.ucmBlockIds (m.hbmHitBlockNum * cfg.cpWorldSize)
          (m.totalHitBlockNum * cfg.cpWorldSize),
        slice blocks m.hbmHitBlockNum m.totalHitBlockNum) := by
    intro r' hr' htable'
    refine h.aligned h.total_le htable ?_ hr' htable'
    rw [hr']
    exact Nat.le_trans h.total_le h.numTokenIds_le
  unfold generateDispatchMeta
  dsimp only
  simp only [if_true]
  split_ifs with hlt
  · obtain ⟨hempty, hle⟩ := hprocess hlt
    have hnum := (h.fresh hempty).1
    rw [hempty, List.nil_append]
    constructor
    · exact ⟨h.numTokenIds_le, h.threshold, h.hashes, h.hbm_le, h.total_le,
        fun hnil => absurd hnil hnonempty, fun hw => absurd hw (by simp),
        fun _ => ⟨hnonempty, fun _ => ⟨rfl, Nat.add_le_add_right hle n, .inl hnum⟩⟩⟩
    · exact ⟨⟨_, hload _ rfl rfl⟩, ⟨_, h.dump_aligned (by omega) hle hblocks rfl rfl⟩⟩
  · constructor
    · exact ⟨h.numTokenIds_le, h.threshold, h.hashes, h.hbm_le, h.total_le,
        fun hnil => absurd hnil (by simp [hnonempty]), fun hw => absurd hw (by simp),
        fun _ => ⟨by simp [hnonempty], fun hlt' => absurd hlt' hlt⟩⟩
    · exact ⟨⟨_, hload _ rfl rfl⟩, ⟨0, .nil _ _ _⟩⟩

theorem MetaOk.continue (h : MetaOk cfg r m) {blocks : List VllmBlock}
    (hstatus : r.status = .running) (hn : 1 ≤ n)
    (htokens : n + r.numComputedTokens ≤ r.allTokenIds.length)
    (hblocks : r.numComputedTokens + n ≤ (r.blockTable ++ blocks).length * cfg.blockSize)
    (hr' : r' = { r with
      numComputedTokens := r.numComputedTokens + n, blockTable := r.blockTable ++ blocks }) :
    MetaOk cfg r' (generateDispatchMeta cfg m n blocks false).1 ∧
      DispatchAligned cfg r' (generateDispatchMeta cfg m n blocks false).2 := by
  subst hr'
  obtain ⟨hnonempty, hprocess⟩ := h.running hstatus
  have hwaiting : ¬(r.status = .waiting ∨ r.status = .preempted) := by
    rw [hstatus]
    simp
  have hnonempty' : m.vllmBlockIds ++ blocks ≠ [] := by simp [hnonempty]
  unfold generateDispatchMeta
  dsimp only
  simp only [if_false, Bool.false_eq_true]
  split_ifs with hlt
  · obtain ⟨htable, hle, hnum⟩ := hprocess hlt
    -- Past the prompt there is one token a step.
    have hend : m.tokenProcessed + n ≤ m.numTokenIds := by
      have := h.numTokenIds_le
      omega
    rw [htable]
    constructor
    · refine ⟨h.numTokenIds_le, h.threshold, h.hashes, h.hbm_le, h.total_le,
        fun hnil => absurd (htable ▸ hnil) hnonempty', fun hw => absurd hw hwaiting,
        fun _ => ⟨htable ▸ hnonempty', fun _ => ⟨rfl, Nat.add_le_add_right hle n, ?_⟩⟩⟩
      rcases hnum with hnum | hnum
      · exact .inl hnum
      · right
        show r.allTokenIds.length ≤ r.numComputedTokens + n + 1
        omega
    · exact ⟨⟨0, .nil _ _ _⟩, ⟨_, h.dump_aligned hend hle hblocks rfl rfl⟩⟩
  · constructor
    · exact ⟨h.numTokenIds_le, h.threshold, h.hashes, h.hbm_le, h.total_le,
        fun hnil => absurd hnil hnonempty', fun hw => absurd hw hwaiting,
        fun _ => ⟨hnonempty', fun hlt' => absurd hlt' hlt⟩⟩
    · exact ⟨⟨0, .nil _ _ _⟩, ⟨0, .nil _ _ _⟩⟩

/-- `need_load`. -/
def Item.needLoad (item : Item) : Bool := item.kind ≠ .running

/-- What is generated for an item. -/
def generateItem (cfg : Config η) (out : SchedulerOutput) (item : Item) (m : RequestMeta η) :
    RequestMeta η × RequestDispatchMeta η :=
  generateDispatchMeta cfg m (out.numScheduledTokens item.id) item.blocks item.needLoad

theorem Request.schedule_cases {bs : Nat} {item : Item} (h : r.schedule bs item n = some r') :
    (item.kind ≠ .running ∧ (r.status = .waiting ∨ r.status = .preempted) ∧
      r.begin bs item.blocks n = some r') ∨
    (item.kind = .running ∧ r.status = .running ∧ 1 ≤ n ∧
      n + r.numComputedTokens ≤ r.allTokenIds.length ∧
      r.numComputedTokens + n ≤ (r.blockTable ++ item.blocks).length * bs ∧
      r' = { r with
        numComputedTokens := r.numComputedTokens + n, blockTable := r.blockTable ++ item.blocks }) := by
  unfold Request.schedule at h
  split at h
  · next hkind hstatus => exact .inl ⟨by rw [hkind]; simp, .inl hstatus, h⟩
  · next hkind hstatus => exact .inl ⟨by rw [hkind]; simp, .inr hstatus, h⟩
  · next hkind hstatus =>
    dsimp only at h
    split_ifs at h with hguard
    exact .inr ⟨hkind, hstatus, hguard.1, hguard.2.1, hguard.2.2, (Option.some.inj h).symm⟩
  · simp at h

theorem Request.schedule_status {bs : Nat} {item : Item} (h : r.schedule bs item n = some r') :
    r'.status = .running := by
  rcases Request.schedule_cases h with ⟨-, -, hbegin⟩ | ⟨-, hstatus, -, -, -, rfl⟩
  · obtain ⟨_, _, _, _, _, _, rfl⟩ := Request.begin_spec hbegin
    rfl
  · exact hstatus

theorem MetaOk.schedule (h : MetaOk cfg r m) {out : SchedulerOutput} {item : Item}
    (hr' : r.schedule cfg.blockSize item (out.numScheduledTokens item.id) = some r') :
    MetaOk cfg r' (generateItem cfg out item m).1 ∧
      DispatchAligned cfg r' (generateItem cfg out item m).2 := by
  unfold generateItem Item.needLoad
  rcases Request.schedule_cases hr' with ⟨hkind, hstatus, hbegin⟩ |
    ⟨hkind, hstatus, hn, htokens, hblocks, hr'⟩
  · rw [decide_eq_true hkind]
    exact h.begin hstatus hbegin
  · rw [hkind]
    exact h.continue hstatus hn htokens hblocks hr'

theorem generateItem_load (cfg : Config η) (out : SchedulerOutput) (item : Item) (m : RequestMeta η) :
    (generateItem cfg out item m).2.loadBlockIds =
      if item.kind = .running then ([], [])
      else (slice m.ucmBlockIds (m.hbmHitBlockNum * cfg.cpWorldSize)
        (m.totalHitBlockNum * cfg.cpWorldSize),
        slice item.blocks m.hbmHitBlockNum m.totalHitBlockNum) := by
  unfold generateItem generateDispatchMeta Item.needLoad
  dsimp only
  by_cases hkind : item.kind = .running
  · simp only [hkind, ne_eq, not_true_eq_false, decide_false, Bool.false_eq_true, if_false, if_true]
    split_ifs <;> rfl
  · simp only [hkind, ne_eq, not_false_eq_true, decide_true, if_true, if_false]
    split_ifs <;> rfl

/-! ## The loops of a step -/

/-- The body of the loops, for an item. -/
def dispatchItem (cfg : Config η) (out : SchedulerOutput)
    (acc : RequestsMeta η × ConnectorMetadata η) (item : Item) :
    RequestsMeta η × ConnectorMetadata η :=
  dispatchRequest cfg out item.id item.blocks item.needLoad acc

theorem buildConnectorMeta_eq (metas : RequestsMeta η) (out : SchedulerOutput) :
    buildConnectorMeta cfg metas out =
      (out.finishedReqIds.foldl (fun metas id => update metas id none)
        (out.items.foldl (dispatchItem cfg out) (metas, [])).1,
        (out.items.foldl (dispatchItem cfg out) (metas, [])).2) := by
  have hneed : ∀ x : CachedRequestData,
      Item.needLoad ⟨x.reqId, if x.resumedFromPreemption then .resumed else .running,
        x.newBlockIds.getD []⟩ = x.resumedFromPreemption := by
    intro x
    unfold Item.needLoad
    cases x.resumedFromPreemption <;> rfl
  unfold buildConnectorMeta SchedulerOutput.items
  rw [List.foldl_append, List.foldl_map, List.foldl_map]
  simp only [dispatchItem, hneed]
  rfl

variable {out : SchedulerOutput} {item : Item} {id : ReqId} {items : List Item}
  {acc : RequestsMeta η × ConnectorMetadata η}

theorem dispatchItem_of_ne (h : id ≠ item.id) : (dispatchItem cfg out acc item).1 id = acc.1 id := by
  unfold dispatchItem dispatchRequest
  split
  · rfl
  · exact update_of_ne h _ _

theorem dispatchItem_self : (dispatchItem cfg out acc item).1 item.id =
    (acc.1 item.id).map fun m => (generateItem cfg out item m).1 := by
  unfold dispatchItem dispatchRequest
  split
  · next hnone => rw [hnone]; rfl
  · next m hm => rw [hm]; exact update_self _ _ _

variable {x : ReqId × RequestDispatchMeta η}

theorem mem_dispatchItem (h : x ∈ (dispatchItem cfg out acc item).2) :
    x ∈ acc.2 ∨ ∃ m, acc.1 item.id = some m ∧ x = (item.id, (generateItem cfg out item m).2) := by
  unfold dispatchItem dispatchRequest at h
  split at h
  · exact .inl h
  · next m hm =>
    rw [List.mem_append, List.mem_singleton] at h
    rcases h with h | h
    · exact .inl h
    · exact .inr ⟨m, hm, h⟩

theorem foldl_dispatchItem_of_notMem (h : id ∉ items.map Item.id) :
    (items.foldl (dispatchItem cfg out) acc).1 id = acc.1 id := by
  induction items generalizing acc with
  | nil => rfl
  | cons item items ih =>
    rw [List.map_cons, List.mem_cons, not_or] at h
    rw [List.foldl_cons, ih h.2, dispatchItem_of_ne h.1]

theorem foldl_dispatchItem_of_mem (hnodup : (items.map Item.id).Nodup) (h : item ∈ items) :
    (items.foldl (dispatchItem cfg out) acc).1 item.id =
      (acc.1 item.id).map fun m => (generateItem cfg out item m).1 := by
  induction items generalizing acc with
  | nil => exact absurd h List.not_mem_nil
  | cons head items ih =>
    rw [List.map_cons, List.nodup_cons] at hnodup
    rw [List.foldl_cons]
    rcases List.mem_cons.mp h with rfl | h
    · rw [foldl_dispatchItem_of_notMem hnodup.1, dispatchItem_self]
    · rw [ih hnodup.2 h, dispatchItem_of_ne]
      rintro heq
      exact hnodup.1 (heq ▸ List.mem_map_of_mem h)

theorem mem_foldl_dispatchItem (hnodup : (items.map Item.id).Nodup)
    (h : x ∈ (items.foldl (dispatchItem cfg out) acc).2) :
    x ∈ acc.2 ∨ ∃ item ∈ items, ∃ m, acc.1 item.id = some m ∧
      x = (item.id, (generateItem cfg out item m).2) := by
  induction items generalizing acc with
  | nil => exact .inl h
  | cons head items ih =>
    rw [List.map_cons, List.nodup_cons] at hnodup
    rw [List.foldl_cons] at h
    rcases ih hnodup.2 h with h | ⟨item, hitem, m, hm, hx⟩
    · rcases mem_dispatchItem h with h | ⟨m, hm, hx⟩
      · exact .inl h
      · exact .inr ⟨head, List.mem_cons_self, m, hm, hx⟩
    · rw [dispatchItem_of_ne] at hm
      · exact .inr ⟨item, List.mem_cons_of_mem _ hitem, m, hm, hx⟩
      · rintro heq
        exact hnodup.1 (heq ▸ List.mem_map_of_mem hitem)

theorem mem_dispatchItem_of_mem (h : x ∈ acc.2) :
    x ∈ (dispatchItem cfg out acc item).2 := by
  unfold dispatchItem dispatchRequest
  split
  · exact h
  · exact List.mem_append_left _ h

theorem mem_foldl_dispatchItem_of_mem (h : x ∈ acc.2) :
    x ∈ (items.foldl (dispatchItem cfg out) acc).2 := by
  induction items generalizing acc with
  | nil => exact h
  | cons head items ih => exact ih (mem_dispatchItem_of_mem h)

theorem mem_foldl_dispatchItem_of_meta (hnodup : (items.map Item.id).Nodup) (h : item ∈ items)
    (hm : acc.1 item.id = some m) :
    (item.id, (generateItem cfg out item m).2) ∈ (items.foldl (dispatchItem cfg out) acc).2 := by
  induction items generalizing acc with
  | nil => exact absurd h List.not_mem_nil
  | cons head items ih =>
    rw [List.map_cons, List.nodup_cons] at hnodup
    rw [List.foldl_cons]
    rcases List.mem_cons.mp h with rfl | h
    · refine mem_foldl_dispatchItem_of_mem ?_
      unfold dispatchItem dispatchRequest
      rw [hm]
      exact List.mem_append_right _ (List.mem_singleton_self _)
    · refine ih hnodup.2 h ?_
      rw [dispatchItem_of_ne]
      · exact hm
      · rintro heq
        exact hnodup.1 (heq ▸ List.mem_map_of_mem h)

theorem foldl_finished (l : List ReqId) (metas : RequestsMeta η) (id : ReqId) :
    l.foldl (fun metas id => update metas id none) metas id =
      if id ∈ l then none else metas id := by
  induction l generalizing metas with
  | nil => rfl
  | cons head l ih =>
    rw [List.foldl_cons, ih]
    by_cases hid : id = head
    · subst hid
      simp
    · simp only [List.mem_cons, hid, false_or]
      split_ifs
      · rfl
      · exact update_of_ne hid _ _

theorem scheduleRequests_spec {bs : Nat} {requests requests' : ReqId → Request}
    (h : scheduleRequests bs requests out = some requests') :
    (out.items.map Item.id).Nodup ∧
      (∀ item ∈ out.items, (requests item.id).schedule bs item (out.numScheduledTokens item.id) =
        some (requests' item.id)) ∧
      (∀ id, id ∉ out.items.map Item.id → requests' id = requests id) ∧
      ∀ id ∈ out.finishedReqIds, (requests id).status = .finished := by
  unfold scheduleRequests at h
  split_ifs at h with hguard
  obtain ⟨hnodup, hsome, hfinished⟩ := hguard
  cases h
  refine ⟨hnodup, ?_, ?_, hfinished⟩
  · intro item hitem
    have hfind : out.items.find? (fun x => x.id = item.id) = some item := by
      cases hfound : out.items.find? (fun x => x.id = item.id) with
      | none => exact absurd (List.find?_eq_none.mp hfound item hitem) (by simp)
      | some found =>
        have hid : found.id = item.id := by simpa using List.find?_some hfound
        rw [List.inj_on_of_nodup_map hnodup (List.mem_of_find?_eq_some hfound) hitem hid]
    simp only [hfind]
    obtain ⟨r', hr'⟩ := Option.isSome_iff_exists.mp (hsome item hitem)
    rw [hr']
    rfl
  · intro id hid
    have hfind : out.items.find? (fun x => x.id = id) = none := by
      rw [List.find?_eq_none]
      intro item hitem heq
      exact hid (of_decide_eq_true heq ▸ List.mem_map_of_mem hitem)
    simp only [hfind]

/-! ## Steps and runs -/

theorem step_schedule (h : step cfg s (.schedule out) = some s') :
    scheduleRequests cfg.blockSize s.requests out = some s'.requests ∧
      s'.requestsMeta = out.finishedReqIds.foldl (fun metas id => update metas id none)
        (out.items.foldl (dispatchItem cfg out) (s.requestsMeta, [])).1 ∧
      s'.dispatched = (out.items.foldl (dispatchItem cfg out) (s.requestsMeta, [])).2 := by
  obtain ⟨requests', hrequests, rfl⟩ := Option.map_eq_some_iff.mp h
  rw [buildConnectorMeta_eq]
  exact ⟨hrequests, rfl, rfl⟩

theorem MetaOk.congr (h : MetaOk cfg r m) (htokens : r'.allTokenIds = r.allTokenIds)
    (hwaiting : r'.status = .waiting ∨ r'.status = .preempted → r'.matched = none)
    (hrunning : r'.status ≠ .running) : MetaOk cfg r' m := by
  refine ⟨htokens ▸ h.numTokenIds_le, htokens ▸ h.threshold, ?_, h.hbm_le, h.total_le,
    htokens ▸ h.fresh, ?_, fun hr => absurd hr hrunning⟩
  · rw [htokens]
    exact h.hashes
  · intro hw numLocal numComputed hmatched
    rw [hwaiting hw] at hmatched
    simp at hmatched

theorem MetaOk.early (h : MetaOk cfg r m) {numLocal : Nat}
    (hlocal : numLocal % cfg.blockSize = 0)
    (hearly : r.allTokenIds.length / cfg.blockSize ≤ numLocal / cfg.blockSize)
    (hafresh : m.vllmBlockIds ≠ [] → m.numTokenIds ≤ m.tokenProcessed)
    (hr' : r' = { r with matched := some (numLocal, numLocal + 0) })
    (hstatus : r.status ≠ .running) : MetaOk cfg r' m := by
  subst hr'
  have htotal : m.totalHitBlockNum * cfg.blockSize ≤ numLocal := by
    have hdiv := Nat.div_le_div_right (c := cfg.blockSize)
      (Nat.le_trans h.total_le h.numTokenIds_le)
    rw [Nat.mul_div_cancel _ cfg.blockSize_pos] at hdiv
    have hmul := Nat.mul_le_mul_right cfg.blockSize (Nat.le_trans hdiv hearly)
    rwa [Nat.div_mul_cancel (Nat.dvd_of_mod_eq_zero hlocal)] at hmul
  refine ⟨h.numTokenIds_le, h.threshold, h.hashes, h.hbm_le, h.total_le, h.fresh, ?_,
    fun hr => absurd hr hstatus⟩
  intro _ l c heq
  cases heq
  refine ⟨by omega, fun hlt => ?_⟩
  have hempty : m.vllmBlockIds = [] := by
    by_contra hne
    exact absurd (hafresh hne) (by omega)
  refine ⟨hempty, ?_⟩
  rw [(h.fresh hempty).2]
  omega

theorem MetaOk.append (h : MetaOk cfg r m) (token : Token) (hstatus : r.status = .running)
    (hcomputed : r.numComputedTokens = r.allTokenIds.length)
    (hr' : r' = { r with allTokenIds := r.allTokenIds ++ [token] }) : MetaOk cfg r' m := by
  subst hr'
  obtain ⟨hnonempty, hprocess⟩ := h.running hstatus
  have hlength : (r.allTokenIds ++ [token]).length = r.allTokenIds.length + 1 := by simp
  refine ⟨?_, ?_, ?_, h.hbm_le, h.total_le, fun hnil => absurd hnil hnonempty,
    fun hw => absurd hw (by simp [hstatus]), fun _ => ⟨hnonempty, fun hlt => ?_⟩⟩
  · have := h.numTokenIds_le
    dsimp only
    omega
  · have := h.threshold
    dsimp only
    omega
  · intro j
    rw [h.hashes j]
    split_ifs with hfull
    · rw [blockHash_append cfg _ _ (Nat.le_trans hfull h.numTokenIds_le)]
    · rfl
  · obtain ⟨htable, hle, -⟩ := hprocess hlt
    refine ⟨htable, hle, .inr ?_⟩
    dsimp only
    omega

theorem SchedulerInv.schedule (h : SchedulerInv cfg s)
    (hstep : step cfg s (.schedule out) = some s') :
    SchedulerInv cfg s' ∧ ∀ x ∈ s'.dispatched, DispatchAligned cfg (s'.requests x.1) x.2 := by
  obtain ⟨hrequests, hmetas', hdispatched⟩ := step_schedule hstep
  obtain ⟨hnodup, hitems, hother, hfinished⟩ := scheduleRequests_spec hrequests
  refine ⟨⟨?_, ?_⟩, ?_⟩
  · intro id hunknown
    have hid : id ∉ out.items.map Item.id := by
      intro hid
      obtain ⟨item, hitem, rfl⟩ := List.mem_map.mp hid
      rw [Request.schedule_status (hitems item hitem)] at hunknown
      simp at hunknown
    rw [hother id hid] at hunknown
    rw [hmetas', foldl_finished, foldl_dispatchItem_of_notMem hid]
    split_ifs
    · rfl
    · exact h.unknown id hunknown
  · intro id m hm
    rw [hmetas', foldl_finished] at hm
    split_ifs at hm with hfin
    by_cases hid : id ∈ out.items.map Item.id
    · obtain ⟨item, hitem, rfl⟩ := List.mem_map.mp hid
      rw [foldl_dispatchItem_of_mem hnodup hitem] at hm
      obtain ⟨m₀, hm₀, rfl⟩ := Option.map_eq_some_iff.mp hm
      exact ((h.metas _ m₀ hm₀).schedule (hitems item hitem)).1
    · rw [foldl_dispatchItem_of_notMem hid] at hm
      rw [hother id hid]
      exact h.metas id m hm
  · intro x hx
    rw [hdispatched] at hx
    rcases mem_foldl_dispatchItem hnodup hx with hx | ⟨item, hitem, m, hm, rfl⟩
    · exact absurd hx List.not_mem_nil
    · exact ((h.metas _ m hm).schedule (hitems item hitem)).2

theorem SchedulerInv.setRequest (h : SchedulerInv cfg s) (hr : r.status ≠ .unknown)
    (hmeta : ∀ m, s.requestsMeta id = some m → MetaOk cfg r m) :
    SchedulerInv cfg (s.setRequest id r) := by
  constructor
  · intro id' hunknown
    by_cases hid : id' = id
    · subst hid
      simp only [State.setRequest, update_self] at hunknown
      exact absurd hunknown hr
    · simp only [State.setRequest, update_of_ne hid] at hunknown
      exact h.unknown id' hunknown
  · intro id' m hm
    by_cases hid : id' = id
    · subst hid
      simp only [State.setRequest, update_self]
      exact hmeta m hm
    · simp only [State.setRequest, update_of_ne hid]
      exact h.metas id' m hm

theorem SchedulerInv.matched (h : SchedulerInv cfg s) {numLocal : Nat} {lookup : Option Int}
    (hafresh : MatchedAfresh cfg s (.matched id numLocal lookup))
    (hstep : step cfg s (.matched id numLocal lookup) = some s') : SchedulerInv cfg s' := by
  simp only [step] at hstep
  split_ifs at hstep with hguard
  cases hstep
  obtain ⟨hstatus, hlocal, -, hlookup⟩ := hguard
  have hrunning : (s.requests id).status ≠ .running := by
    rintro heq
    simp [heq] at hstatus
  have hunknown : (s.requests id).status ≠ .unknown := by
    rintro heq
    simp [heq] at hstatus
  rcases getNumNewMatchedTokens_spec s.requestsMeta id hlocal hlookup with
    ⟨heq, hearly⟩ | ⟨m, external, heq, -, -, -, hm⟩
  · rw [heq]
    refine h.setRequest hunknown ?_
    intro m hm
    have hok := h.metas id m hm
    rcases hearly with hthreshold | hearly
    · exact absurd hok.threshold (by omega)
    · refine hok.early hlocal hearly (fun hne => ?_) rfl hrunning
      by_contra hlt
      have := hafresh m hm hne (by omega)
      omega
  · rw [heq]
    constructor
    · intro id' hunknown'
      by_cases hid : id' = id
      · subst hid
        simp only [State.setRequest, update_self] at hunknown'
        exact absurd hunknown' hunknown
      · simp only [State.setRequest, update_of_ne hid] at hunknown' ⊢
        exact h.unknown id' hunknown'
    · intro id' m' hm'
      by_cases hid : id' = id
      · subst hid
        simp only [State.setRequest, update_self, Option.some.injEq] at hm' ⊢
        subst hm'
        exact hm _ rfl hrunning rfl
      · simp only [State.setRequest, update_of_ne hid] at hm' ⊢
        exact h.metas id' m' hm'

theorem SchedulerInv.step (h : SchedulerInv cfg s) {e : Event}
    (hafresh : MatchedAfresh cfg s e) (hstep : step cfg s e = some s') : SchedulerInv cfg s' := by
  cases e with
  | arrive id prompt =>
    simp only [Connector.step] at hstep
    split_ifs at hstep with hguard
    cases hstep
    refine h.setRequest (by simp) ?_
    intro m hm
    rw [h.unknown id hguard.1] at hm
    simp at hm
  | matched id numLocal lookup => exact h.matched hafresh hstep
  | schedule out => exact (h.schedule hstep).1
  | append id token =>
    simp only [Connector.step] at hstep
    split_ifs at hstep with hguard
    cases hstep
    refine h.setRequest (by simp [hguard.1]) ?_
    intro m hm
    exact (h.metas id m hm).append token hguard.1 hguard.2 rfl
  | preempt id =>
    simp only [Connector.step] at hstep
    split_ifs at hstep with hguard
    cases hstep
    refine h.setRequest (by simp) ?_
    intro m hm
    exact (h.metas id m hm).congr rfl (fun _ => rfl) (by simp)
  | finish id =>
    simp only [Connector.step] at hstep
    split_ifs at hstep with hguard
    cases hstep
    refine h.setRequest (by simp) ?_
    intro m hm
    exact (h.metas id m hm).congr rfl (by simp) (by simp)

theorem SchedulerInv.of_reach (h : (machine cfg).Reach (MatchedAfresh cfg) s) : SchedulerInv cfg s := by
  refine h.inv ?_ ?_
  · rintro s rfl
    exact ⟨fun _ _ => rfl, fun _ _ hm => absurd hm (by simp [State.start])⟩
  · intro s e s' hinv hafresh hstep
    exact hinv.step hafresh hstep

/-- **Hashes and blocks of the GPU go together.** Whatever a scheduling step dispatches, in a run in
which every lookup about a half-processed request is a real one, pairs the hash of a block of tokens
with the block of the table at the same place, and dumps only what is computed. -/
theorem dispatch_paired (hcp : cfg.cpWorldSize = 1)
    (h : (machine cfg).Reach (MatchedAfresh cfg) s)
    (hstep : (machine cfg).step s (.schedule out) = some s') :
    ∀ x ∈ s'.dispatched, DispatchOk cfg (s'.requests x.1) x.2 :=
  fun x hx => (((SchedulerInv.of_reach h).schedule hstep).2 x hx).dispatchOk hcp

/-- A step with request `0` alone, when it starts. -/
def startAlone (n : Nat) (blocks : List VllmBlock) : SchedulerOutput where
  scheduledNewReqs := [⟨0, blocks⟩]
  scheduledCachedReqs := []
  numScheduledTokens := fun _ => n
  finishedReqIds := []

/-- A step with request `0` alone, when it resumes. -/
def resumeAlone (n : Nat) (blocks : List VllmBlock) : SchedulerOutput where
  scheduledNewReqs := []
  scheduledCachedReqs := [⟨0, some blocks, true⟩]
  numScheduledTokens := fun _ => n
  finishedReqIds := []

/-- A request is preempted within its prompt and resumes with another table. -/
theorem dispatch_paired_resumed : ∃ s s', (machine .small).Reach (MatchedAfresh .small) s ∧
    (machine .small).step s (.schedule (resumeAlone 2 [20, 21, 22])) = some s' ∧
    s'.dispatched.map (fun x => (x.2.loadBlockIds, x.2.dumpBlockIds)) =
      [(([[1, 2]], [20]), ([[1, 2, 3, 4]], [21]))] ∧
    ∀ x ∈ s'.dispatched, DispatchOk .small (s'.requests x.1) x.2 := by
  obtain ⟨s, hreach, hp⟩ := Machine.exists_reach_of_run (M := machine .small)
    (C := MatchedAfresh .small) (s := .start) (l := [.arrive 0 [1, 2, 3, 4, 5],
      .matched 0 0 (some (-1)), .schedule (startAlone 3 [10, 11]), .preempt 0,
      .matched 0 0 (some 0)]) (p := fun s =>
      ∃ s' ∈ (machine .small).step s (.schedule (resumeAlone 2 [20, 21, 22])),
        decide (s'.dispatched.map (fun x => (x.2.loadBlockIds, x.2.dumpBlockIds)) =
          [(([[1, 2]], [20]), ([[1, 2, 3, 4]], [21]))])) rfl (by decide +kernel)
  obtain ⟨s', hstep, hp⟩ := hp
  exact ⟨s, s', hreach, hstep, of_decide_eq_true hp, dispatch_paired rfl hreach hstep⟩

/-- A request is preempted within its prompt, and when it resumes all its full blocks are cached
locally, so that there is nothing to look up. Its metadata is still that of its first life, and
block `11`, which the request no longer has, is dumped. -/
theorem dispatch_mispaired : ∃ s s', (machine .small).Reachable s ∧
    (machine .small).step s (.schedule (resumeAlone 1 [20, 21, 22])) = some s' ∧
    ∃ x ∈ s'.dispatched, ¬DispatchOk .small (s'.requests x.1) x.2 := by
  obtain ⟨s, hs, hp⟩ := Machine.exists_reachable_of_run (M := machine .small) (s := .start)
    (l := [.arrive 0 [1, 2, 3, 4, 5], .matched 0 0 (some (-1)), .schedule (startAlone 3 [10, 11]),
      .preempt 0, .matched 0 4 (some (-1))]) (p := fun s =>
      ∃ s' ∈ (machine .small).step s (.schedule (resumeAlone 1 [20, 21, 22])),
        ∃ x ∈ s'.dispatched, ([1, 2, 3, 4], 11) ∈ x.2.dumpBlockIds.1.zip x.2.dumpBlockIds.2 ∧
          11 ∉ (s'.requests x.1).blockTable) rfl (by decide +kernel)
  obtain ⟨s', hstep, x, hx, hdump, hgone⟩ := hp
  refine ⟨s, s', hs, hstep, x, hx, ?_⟩
  intro hok
  obtain ⟨j, -, -, hblock⟩ := hok.dump _ hdump
  exact hgone (List.mem_of_getElem? hblock)

end UnifiedCache.Connector
