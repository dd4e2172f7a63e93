import UnifiedCache.Lib.Dict
import UnifiedCache.Lib.RoundRobin
import UnifiedCache.Mindie.PrefixCache

/-!
# Proofs: blocks between MindIE and the pool

The blocks that a rank takes of a request begin with the first one from the computed ones on that is on
this rank, and the loop pairs it with the first place of the row. This is its place only if no block of
the rank comes before it.
-/

open Lib

namespace UnifiedCache.Mindie

/-- The hash that the first `b` blocks of a request end with. -/
def UcHashExt.blockHash (tokens : List Int64) (blockSize : Nat) : Nat → UInt64
  | 0 => 0
  | b + 1 => hashBlock (blockHash tokens blockSize b) (blockTokens tokens blockSize b)

namespace PrefixCachePlugin

open RoundRobin

variable {self : PrefixCachePlugin} {metadata : InputMetadata} {inferContext : InferContext}
  {tokens : List Int64} {row : List Nat} {blockSize rank start stop n : Nat}

/-! ## The hashes -/

theorem blockTokens_take {b : Nat} (hb : b < n) :
    blockTokens (tokens.take (n * blockSize)) blockSize b = blockTokens tokens blockSize b := by
  unfold blockTokens
  have hle : b * blockSize + blockSize ≤ n * blockSize := by
    rw [← Nat.succ_mul]
    exact Nat.mul_le_mul_right _ hb
  rw [List.drop_take, List.take_take, Nat.min_eq_left (by omega)]

theorem hashPrefixLoop_blockHash (tokens : List Int64) (blockSize k : Nat) :
    ∀ b, UcHashExt.hashPrefixLoop tokens blockSize k b (UcHashExt.blockHash tokens blockSize b) =
      (List.range' b k).map fun b => UcHashExt.blockHash tokens blockSize (b + 1) := by
  induction k with
  | zero =>
    intro b
    rfl
  | succ k ih =>
    intro b
    rw [List.range'_succ, List.map_cons, ← ih (b + 1)]
    rfl

theorem blockHash_take (n : Nat) : ∀ b ≤ n,
    UcHashExt.blockHash (tokens.take (n * blockSize)) blockSize b =
      UcHashExt.blockHash tokens blockSize b := by
  intro b
  induction b with
  | zero =>
    intro _
    rfl
  | succ b ih =>
    intro hb
    unfold UcHashExt.blockHash
    rw [ih (Nat.le_of_succ_le hb), blockTokens_take hb]

/-- The hashes of the first blocks of a request. -/
def hashesOf (tokens : List Int64) (blockSize n : Nat) : List UInt64 :=
  (List.range n).map fun b => UcHashExt.blockHash tokens blockSize (b + 1)

theorem hashFlat_eq (tokens : List Int64) (hblockSize : 0 < blockSize) (hlength : n * blockSize ≤ tokens.length) :
    hashFlat (tokens.take (n * blockSize)) blockSize n = some (hashesOf tokens blockSize n) := by
  have hflat : ¬(tokens.take (n * blockSize)).length < n * blockSize := by
    rw [List.length_take, Nat.min_eq_left hlength]
    exact Nat.lt_irrefl _
  have hloop := hashPrefixLoop_blockHash (tokens.take (n * blockSize)) blockSize n 0
  unfold hashFlat UcHashExt.hashPrefix
  rw [if_neg (Nat.ne_of_gt hblockSize), if_neg (Nat.not_lt_zero n), if_neg hflat]
  show some (UcHashExt.hashPrefixLoop (tokens.take (n * blockSize)) blockSize (n - 0) 0
    (UcHashExt.blockHash (tokens.take (n * blockSize)) blockSize 0)) = _
  rw [Nat.sub_zero, hloop, ← List.range_eq_range']
  refine congrArg some (List.map_congr_left fun b hb => ?_)
  exact blockHash_take n (b + 1) (List.mem_range.mp hb)

theorem getElem?_hashesOf {b : Nat} (hb : b < n) :
    (hashesOf tokens blockSize n)[b]? = some (UcHashExt.blockHash tokens blockSize (b + 1)) := by
  unfold hashesOf
  rw [List.getElem?_map, List.getElem?_range hb, Option.map_some]

/-! ## The first block -/

variable (hrank : self.scpRank < self.scpSize)

theorem first_spec (self : PrefixCachePlugin) (hrank : self.scpRank < self.scpSize) (start : Nat) :
    start ≤ self.first start ∧
    self.first start < start + self.scpSize ∧ self.first start % self.scpSize = self.scpRank := by
  have hmod := Nat.mod_lt start (Nat.lt_of_le_of_lt (Nat.zero_le _) hrank)
  have hdiv := Nat.div_add_mod start self.scpSize
  unfold first
  rcases Nat.lt_or_ge self.scpRank (start % self.scpSize) with hlt | hge
  · have hrem : ((self.scpRank : Int) - ((start % self.scpSize : Nat) : Int)) % self.scpSize =
        (self.scpRank : Int) - ((start % self.scpSize : Nat) : Int) + self.scpSize := by
      rw [← Int.add_emod_right]
      exact Int.emod_eq_of_lt (by omega) (by omega)
    have hfirst : start + (self.scpRank - ((start % self.scpSize : Nat) : Int) +
        self.scpSize).toNat = self.scpRank + self.scpSize * (start / self.scpSize + 1) := by
      rw [Nat.mul_add, Nat.mul_one]
      omega
    rw [hrem]
    refine ⟨by omega, by omega, ?_⟩
    rw [hfirst, Nat.add_mul_mod_self_left, Nat.mod_eq_of_lt hrank]
  · have hrem : ((self.scpRank : Int) - ((start % self.scpSize : Nat) : Int)) % self.scpSize =
        (self.scpRank : Int) - ((start % self.scpSize : Nat) : Int) :=
      Int.emod_eq_of_lt (by omega) (by omega)
    have hfirst : start + ((self.scpRank : Int) - ((start % self.scpSize : Nat) : Int)).toNat =
        self.scpRank + self.scpSize * (start / self.scpSize) := by
      omega
    rw [hrem]
    refine ⟨by omega, by omega, ?_⟩
    rw [hfirst, Nat.add_mul_mod_self_left, Nat.mod_eq_of_lt hrank]

/-! ## The blocks of a request -/

/-- An appended pair, with its block as one that was found. -/
def found (entry : String × Nat) : String × Option Nat := (entry.1, some entry.2)

/-- The key of block `b`. -/
def keyOf (self : PrefixCachePlugin) (tokens : List Int64) (blockSize b : Nat) : String :=
  self.getPrefixKeys (UcHashExt.blockHash tokens blockSize (b + 1))

/-- The blocks of a request that are on this rank, each with its key and with the block at its place in
the row. -/
def paired (self : PrefixCachePlugin) (tokens : List Int64) (blockSize : Nat) (row : List Nat)
    (start stop : Nat) : List (String × Option Nat) :=
  (turns self.scpSize self.scpRank start stop).map fun b =>
    (self.keyOf tokens blockSize b, row[b / self.scpSize]?)

/-- The number of turns of the loop. -/
def turnCount (self : PrefixCachePlugin) (start stop : Nat) : Nat :=
  (stop - self.first start + (self.scpSize - 1)) / self.scpSize

/-- What the loop pairs in turn `k`. -/
def emitted (self : PrefixCachePlugin) (tokens : List Int64) (blockSize : Nat) (row : List Nat)
    (start stop : Nat) : List (String × Option Nat) :=
  if 1 < self.scpSize then
    (List.range (self.turnCount start stop)).map fun k =>
      (self.keyOf tokens blockSize (self.first start + self.scpSize * k), row[k]?)
  else
    (turns self.scpSize self.scpRank start stop).map fun b => (self.keyOf tokens blockSize b, row[b]?)

theorem range'_eq_map_step (first n step : Nat) :
    List.range' first n step = (List.range n).map fun k => first + step * k := by
  refine List.ext_getElem? fun k => ?_
  rw [List.getElem?_map]
  by_cases hk : k < n
  · rw [List.getElem?_range hk, List.getElem?_range' hk]
    rfl
  · rw [List.getElem?_eq_none (by rw [List.length_range']; omega),
      List.getElem?_eq_none (by rw [List.length_range]; omega)]
    rfl

include hrank in
theorem turns_one (hone : ¬1 < self.scpSize) :
    turns self.scpSize self.scpRank start stop = pyRange start stop 1 := by
  have hsize : self.scpSize = 1 := by omega
  have hzero : self.scpRank = 0 := by omega
  rw [hsize, hzero]
  exact turns_eq_range' Nat.one_pos (Nat.le_refl _) (Nat.lt_succ_self _) (Nat.mod_one _)

include hrank in
theorem turns_eq (start stop : Nat) : turns self.scpSize self.scpRank start stop =
    (List.range (self.turnCount start stop)).map fun k => self.first start + self.scpSize * k := by
  obtain ⟨hstart, hlt, hmod⟩ := first_spec self hrank start
  rw [turns_eq_range' (Nat.lt_of_le_of_lt (Nat.zero_le _) hrank) hstart hlt hmod, range'_eq_map_step]
  rfl

include hrank in
theorem mem_turnCount {k : Nat} (hk : k < self.turnCount start stop) :
    self.first start + self.scpSize * k < stop := by
  have hmem : self.first start + self.scpSize * k ∈ turns self.scpSize self.scpRank start stop := by
    rw [turns_eq hrank]
    exact List.mem_map.mpr ⟨k, List.mem_range.mpr hk, rfl⟩
  exact (mem_turns.mp hmem).1.2

include hrank in
theorem appendBlocks_eq (hrow : ∀ b < stop, b / self.scpSize < row.length) :
    ∃ entries, self.appendBlocks (hashesOf tokens blockSize stop) row start stop = some entries ∧
      entries.map found = self.emitted tokens blockSize row start stop := by
  have hpos := Nat.lt_of_le_of_lt (Nat.zero_le _) hrank
  unfold appendBlocks emitted
  by_cases hone : 1 < self.scpSize
  · rw [if_pos hone, if_pos hone]
    have hzip : (pyRange (self.first start) stop self.scpSize).zipIdx =
        (List.range (self.turnCount start stop)).map fun k =>
          (self.first start + self.scpSize * k, k) := by
      unfold pyRange
      rw [range'_eq_map_step, List.zipIdx_map]
      have hrange : (List.range (self.turnCount start stop)).zipIdx =
          (List.range (self.turnCount start stop)).map fun k => (k, k) := by
        rw [List.zipIdx_eq_zip_range', ← List.range_eq_range', List.length_range]
        exact List.zipWith_self
      unfold turnCount at hrange ⊢
      rw [hrange, List.map_map]
      rfl
    rw [hzip, List.mapM_map]
    refine Dict.exists_mapM_map fun k hk => ?_
    have hstop := mem_turnCount hrank (List.mem_range.mp hk)
    have hplace : k < row.length := by
      refine Nat.lt_of_le_of_lt ?_ (hrow _ hstop)
      rw [div_step hpos]
      exact Nat.le_add_left _ _
    refine ⟨(self.keyOf tokens blockSize (self.first start + self.scpSize * k), row[k]), ?_, ?_⟩
    · rw [Function.comp_apply]
      dsimp only
      rw [getElem?_hashesOf hstop, List.getElem?_eq_getElem hplace]
      rfl
    · unfold found
      rw [List.getElem?_eq_getElem hplace]
  · rw [if_neg hone, if_neg hone, turns_one hrank hone]
    refine Dict.exists_mapM_map fun b hb => ?_
    rw [← turns_one hrank hone] at hb
    have hstop := (mem_turns.mp hb).1.2
    have hplace : b < row.length := by
      have hdiv := hrow b hstop
      have hsize : self.scpSize = 1 := by omega
      rwa [hsize, Nat.div_one] at hdiv
    refine ⟨(self.keyOf tokens blockSize b, row[b]), ?_, ?_⟩
    · rw [getElem?_hashesOf hstop, List.getElem?_eq_getElem hplace]
      rfl
    · unfold found
      rw [List.getElem?_eq_getElem hplace]

include hrank in
theorem length_emitted : (self.emitted tokens blockSize row start stop).length =
    (self.paired tokens blockSize row start stop).length := by
  unfold emitted paired
  by_cases hone : 1 < self.scpSize
  · rw [if_pos hone, turns_eq hrank, List.length_map, List.length_map, List.length_map]
  · rw [if_neg hone, List.length_map, List.length_map]

include hrank in
theorem emitted_eq_paired
    (h : self.scpSize = 1 ∨ stop ≤ self.first start ∨ self.first start < self.scpSize) :
    self.emitted tokens blockSize row start stop = self.paired tokens blockSize row start stop := by
  have hpos := Nat.lt_of_le_of_lt (Nat.zero_le _) hrank
  unfold emitted paired
  by_cases hone : 1 < self.scpSize
  · rw [if_pos hone, turns_eq hrank, List.map_map]
    refine List.map_congr_left fun k hk => ?_
    have hstop := mem_turnCount hrank (List.mem_range.mp hk)
    have hfirst : self.first start < self.scpSize := by omega
    rw [Function.comp_apply, div_step hpos, Nat.div_eq_of_lt hfirst, Nat.zero_add]
  · have hsize : self.scpSize = 1 := by omega
    rw [if_neg hone]
    refine List.map_congr_left fun b _ => ?_
    rw [hsize, Nat.div_one]

include hrank in
theorem first_of_emitted_eq (hrow : ∀ b < stop, b / self.scpSize < n)
    (h : self.emitted tokens blockSize (List.range n) start stop =
      self.paired tokens blockSize (List.range n) start stop) :
    self.scpSize = 1 ∨ stop ≤ self.first start ∨ self.first start < self.scpSize := by
  have hpos := Nat.lt_of_le_of_lt (Nat.zero_le _) hrank
  by_cases hone : 1 < self.scpSize
  · by_cases hstop : stop ≤ self.first start
    · exact Or.inr (Or.inl hstop)
    · have hcount : 0 < self.turnCount start stop := by
        refine (lt_steps_iff hpos).mpr ?_
        omega
      unfold emitted paired at h
      rw [if_pos hone, turns_eq hrank, List.map_map] at h
      have hhead := congrArg (fun l => l[0]?) h
      rw [List.getElem?_map, List.getElem?_map, List.getElem?_range hcount, Option.map_some,
        Option.map_some, Function.comp_apply, Nat.mul_zero, Nat.add_zero] at hhead
      have hplace := (Prod.mk.inj (Option.some.inj hhead)).2
      have hlt := hrow (self.first start) (Nat.lt_of_not_le hstop)
      rw [List.getElem?_range hlt, List.getElem?_range (Nat.lt_of_le_of_lt (Nat.zero_le _) hlt)]
        at hplace
      refine Or.inr (Or.inr ?_)
      exact (Nat.div_eq_zero_iff_lt hpos).mp (Option.some.inj hplace).symm
  · exact Or.inl (by omega)

/-! ## The requests of a batch -/

/-- The plugin of another rank. -/
def atRank (self : PrefixCachePlugin) (rank : Nat) : PrefixCachePlugin := { self with scpRank := rank }

/-- The request is one of this data-parallel rank. -/
def Own (self : PrefixCachePlugin) (metadata : InputMetadata) (i : Nat) : Prop :=
  metadata.batchDpRankIds i = self.attnDpRank

instance (i : Nat) : Decidable (self.Own metadata i) := by
  unfold Own
  infer_instance

/-- The blocks that are written are those from here on. -/
def putStart (self : PrefixCachePlugin) (metadata : InputMetadata) (i : Nat) : Nat :=
  self.countOrZero metadata.remoteComputedBlocks i

/-- They end before the block of the last token. -/
def putStop (metadata : InputMetadata) (inferContext : InferContext) (i : Nat) : Nat :=
  (inferContext.seqLens i - 1) / metadata.maxBlockSize

/-- The blocks that are read are those from here on. -/
def getStart (self : PrefixCachePlugin) (metadata : InputMetadata) (i : Nat) : Nat :=
  self.countOrZero metadata.computedBlocks i

/-- They end with those that the pool has. -/
def getStop (self : PrefixCachePlugin) (metadata : InputMetadata) (i : Nat) : Nat :=
  min (self.countOrZero metadata.remoteComputedBlocks i)
    ((metadata.batchSeqLen i - 1) / metadata.maxBlockSize)

theorem turns_nil (h : stop ≤ start) : turns n rank start stop = [] := by
  refine List.eq_nil_iff_forall_not_mem.mpr fun b hb => ?_
  have hmem := (mem_turns.mp hb).1
  omega

include hrank in
theorem emitted_nil (h : stop ≤ start) : self.emitted tokens blockSize row start stop = [] := by
  refine List.eq_nil_of_length_eq_zero ?_
  rw [length_emitted hrank]
  unfold paired
  rw [turns_nil h]
  rfl

variable (hblockSize : 0 < metadata.maxBlockSize)

theorem mul_le_of_le_div {seqLen : Nat} (h : n ≤ (seqLen - 1) / blockSize) : n * blockSize ≤ seqLen := by
  have hle := Nat.mul_le_of_le_div _ _ _ h
  omega

theorem putRequest_eq (self : PrefixCachePlugin) (metadata : InputMetadata)
    (hrank : self.scpRank < self.scpSize) (hblockSize : 0 < metadata.maxBlockSize) {i : Nat}
    (htokens : inferContext.seqLens i ≤ (inferContext.allInputIds i).length)
    (hrow : ∀ b < putStop metadata inferContext i,
      b / self.scpSize < (metadata.batchBlockTables i).length) :
    ∃ entries, self.putRequest metadata inferContext i = some entries ∧
      entries.map found = if self.Own metadata i then
        self.emitted (inferContext.allInputIds i) metadata.maxBlockSize (metadata.batchBlockTables i)
          (self.putStart metadata i) (putStop metadata inferContext i) else [] := by
  unfold putRequest
  by_cases hown : self.Own metadata i
  · have hnot : ¬metadata.batchDpRankIds i ≠ self.attnDpRank := not_not.mpr hown
    rw [if_neg hnot, if_pos hown]
    by_cases hshort : putStop metadata inferContext i ≤ self.putStart metadata i
    · -- The request is short, or the pool has all of its blocks.
      rw [emitted_nil hrank hshort]
      refine ⟨[], ?_, rfl⟩
      dsimp only
      by_cases hone : metadata.maxBlockSize ≠ 0 ∧ inferContext.seqLens i - 1 < metadata.maxBlockSize
      · rw [if_pos hone]
      · rw [if_neg hone, if_neg (Nat.ne_of_gt hblockSize)]
        by_cases hfull : (inferContext.seqLens i - 1) / metadata.maxBlockSize = 0
        · rw [if_pos hfull]
        · rw [if_neg hfull]
          exact if_pos hshort
    · have hfull : (inferContext.seqLens i - 1) / metadata.maxBlockSize ≠ 0 := by
        unfold putStop at hshort
        omega
      have hone : ¬(metadata.maxBlockSize ≠ 0 ∧
          inferContext.seqLens i - 1 < metadata.maxBlockSize) := by
        rintro ⟨_, hlt⟩
        exact hfull (Nat.div_eq_of_lt hlt)
      have hhash := hashFlat_eq (inferContext.allInputIds i) hblockSize
        (Nat.le_trans (mul_le_of_le_div (Nat.le_refl (putStop metadata inferContext i))) htokens)
      dsimp only
      rw [if_neg hone, if_neg (Nat.ne_of_gt hblockSize), if_neg hfull]
      rw [if_neg (show ¬(inferContext.seqLens i - 1) / metadata.maxBlockSize ≤
        self.countOrZero metadata.remoteComputedBlocks i from hshort)]
      unfold putStop at hhash
      rw [hhash]
      exact appendBlocks_eq hrank hrow
  · have hne : metadata.batchDpRankIds i ≠ self.attnDpRank := hown
    rw [if_pos hne, if_neg hown]
    exact ⟨[], rfl, rfl⟩

theorem getRequest_eq (self : PrefixCachePlugin) (metadata : InputMetadata)
    (hrank : self.scpRank < self.scpSize) (hblockSize : 0 < metadata.maxBlockSize) {i offset : Nat}
    {remote : Nat → List Nat}
    (hremote : metadata.remoteComputedBlocks = some remote) {rest : List Int64}
    (hids : metadata.inputIds.drop offset = tokens ++ rest)
    (htokens : tokens.length = metadata.batchSeqLen i)
    (hrow : ∀ b < self.getStop metadata i, b / self.scpSize < (metadata.batchBlockTables i).length) :
    ∃ entries, self.getRequest metadata offset i = some entries ∧
      entries.map found = if self.Own metadata i then
        self.emitted tokens metadata.maxBlockSize (metadata.batchBlockTables i)
          (self.getStart metadata i) (self.getStop metadata i) else [] := by
  have hcount : self.countOrZero metadata.remoteComputedBlocks i = self.count remote i := by
    rw [hremote]
    rfl
  unfold getRequest
  by_cases hown : self.Own metadata i
  · have hnot : ¬metadata.batchDpRankIds i ≠ self.attnDpRank := not_not.mpr hown
    rw [if_neg hnot, if_pos hown]
    dsimp only
    rw [if_pos (Nat.ne_of_gt hblockSize), hremote]
    by_cases hfull : (metadata.batchSeqLen i - 1) / metadata.maxBlockSize = 0
    · have hstop : self.getStop metadata i ≤ self.getStart metadata i := by
        unfold getStop
        omega
      rw [if_pos hfull, emitted_nil hrank hstop]
      exact ⟨[], rfl, rfl⟩
    · rw [if_neg hfull, Option.bind_eq_bind, Option.bind_some]
      by_cases hskip : self.getStop metadata i ≤ self.getStart metadata i
      · have hcond : self.count remote i ≤ self.countOrZero metadata.computedBlocks i ∨
            (metadata.batchSeqLen i - 1) / metadata.maxBlockSize ≤
              self.countOrZero metadata.computedBlocks i := by
          unfold getStop getStart at hskip
          omega
        rw [if_pos hcond, emitted_nil hrank hskip]
        exact ⟨[], rfl, rfl⟩
      · have hcond : ¬(self.count remote i ≤ self.countOrZero metadata.computedBlocks i ∨
            (metadata.batchSeqLen i - 1) / metadata.maxBlockSize ≤
              self.countOrZero metadata.computedBlocks i) := by
          unfold getStop getStart at hskip
          omega
        have hlength : self.getStop metadata i * metadata.maxBlockSize ≤ tokens.length := by
          rw [htokens]
          exact mul_le_of_le_div (Nat.min_le_right _ _)
        have hhash := hashFlat_eq tokens hblockSize hlength
        have hflat : (tokens ++ rest).take (self.getStop metadata i * metadata.maxBlockSize) =
            tokens.take (self.getStop metadata i * metadata.maxBlockSize) :=
          List.take_append_of_le_length hlength
        rw [if_neg hcond, hids]
        unfold getStop at hhash hflat hrow ⊢
        rw [hcount] at hhash hflat hrow ⊢
        rw [hflat, hhash]
        exact appendBlocks_eq hrank hrow
  · have hne : metadata.batchDpRankIds i ≠ self.attnDpRank := hown
    rw [if_pos hne, if_neg hown]
    exact ⟨[], rfl, rfl⟩

theorem getLoop_eq (self : PrefixCachePlugin) (metadata : InputMetadata) (prompts : Nat → List Int64)
    {want : Nat → List (String × Option Nat)} {is : List Nat} (hrequest : ∀ i ∈ is, ∀ offset rest,
      metadata.inputIds.drop offset = prompts i ++ rest →
      ∃ entries, self.getRequest metadata offset i = some entries ∧ entries.map found = want i)
    (hlength : ∀ i ∈ is, (prompts i).length = metadata.batchSeqLen i) :
    ∀ offset, metadata.inputIds.drop offset = is.flatMap prompts →
      ∃ entries, self.getLoop metadata is offset = some entries ∧
        entries.map found = is.flatMap want := by
  induction is with
  | nil =>
    intro offset _
    exact ⟨[], rfl, rfl⟩
  | cons i is ih =>
    intro offset hids
    rw [List.forall_mem_cons] at hrequest hlength
    rw [List.flatMap_cons] at hids
    obtain ⟨entries, hentries, hmap⟩ := hrequest.1 offset _ hids
    have hnext : metadata.inputIds.drop (offset + metadata.batchSeqLen i) = is.flatMap prompts := by
      rw [← List.drop_drop, hids, ← hlength.1, List.drop_left]
    obtain ⟨more, hmore, hmapMore⟩ := ih hrequest.2 hlength.2 _ hnext
    refine ⟨entries ++ more, ?_, by rw [List.map_append, hmap, hmapMore, List.flatMap_cons]⟩
    unfold getLoop
    rw [hentries, Option.bind_eq_bind, Option.bind_some, hmore]
    rfl

/-! ## The batch -/

/-- The rows of the tables have a place for every full block of this data-parallel rank. -/
def RowsFit (self : PrefixCachePlugin) (metadata : InputMetadata) (inferContext : InferContext)
    (tables : Nat → List Nat) : Prop :=
  ∀ i < metadata.batchSize, self.Own metadata i → ∀ b,
    b < putStop metadata inferContext i ∨ b < self.getStop metadata i →
      b / self.scpSize < (tables i).length

/-- The batch with other tables. -/
def withTables (metadata : InputMetadata) (tables : Nat → List Nat) : InputMetadata :=
  { metadata with batchBlockTables := tables }

/-- The requests of this data-parallel rank, one after the other. -/
def ownRequests (self : PrefixCachePlugin) (metadata : InputMetadata)
    (want : Nat → List (String × Option Nat)) : List (String × Option Nat) :=
  (List.range metadata.batchSize).flatMap fun i => if self.Own metadata i then want i else []

/-- Writing and reading on all ranks, for all tables: a block is with one rank, which emits its key
once, with the block at its place in the row. -/
structure PutGetOk (self : PrefixCachePlugin) (metadata : InputMetadata) (inferContext : InferContext)
    (prompts : Nat → List Int64) : Prop where
  put : ∀ tables, self.RowsFit metadata inferContext tables → ∀ rank < self.scpSize,
    ∃ entries, (self.atRank rank).putPrefixKvcacheToMempool (withTables metadata tables) inferContext =
        some entries ∧
      entries.map found = self.ownRequests metadata fun i =>
        (self.atRank rank).paired (inferContext.allInputIds i) metadata.maxBlockSize (tables i)
          (self.putStart metadata i) (putStop metadata inferContext i)
  get : metadata.remoteComputedBlocks ≠ none → ∀ tables, self.RowsFit metadata inferContext tables →
    ∀ rank < self.scpSize,
    ∃ entries, (self.atRank rank).getPrefixKvcacheFromMempool (withTables metadata tables) =
        some entries ∧
      entries.map found = self.ownRequests metadata fun i =>
        (self.atRank rank).paired (prompts i) metadata.maxBlockSize (tables i)
          (self.getStart metadata i) (self.getStop metadata i)
  ranks : ∀ start stop, ((List.range self.scpSize).flatMap fun rank =>
    turns self.scpSize rank start stop).Perm (List.range' start (stop - start))

/-- The blocks from `start` on begin with the first one, or they are all in the first place of the
row, or there is none. -/
def Unshifted (scpSize start stop : Nat) : Prop := start = 0 ∨ stop ≤ scpSize ∨ stop ≤ start

theorem unshifted_iff (hscp : 0 < self.scpSize) : Unshifted self.scpSize start stop ↔
    ∀ rank < self.scpSize, stop ≤ (self.atRank rank).first start ∨
      (self.atRank rank).first start < self.scpSize := by
  constructor
  · intro h rank hrank
    obtain ⟨hstart, hlt, _⟩ := first_spec (self.atRank rank) hrank start
    have hsize : (self.atRank rank).scpSize = self.scpSize := rfl
    rw [hsize] at hlt
    rcases h with hzero | hstop | hnone
    · omega
    · omega
    · omega
  · intro h
    by_contra hnot
    unfold Unshifted at hnot
    rw [not_or, not_or] at hnot
    obtain ⟨hzero, hstop, hnone⟩ := hnot
    by_cases hbeyond : self.scpSize ≤ start
    · -- The rank of the first block has blocks before it.
      have hrank := Nat.mod_lt start hscp
      obtain ⟨hstart, hlt, hmod⟩ := first_spec (self.atRank (start % self.scpSize)) hrank start
      have hle : (self.atRank (start % self.scpSize)).first start ≤ start :=
        first_le start hlt (Nat.le_refl _) hmod.symm
      rcases h _ hrank with hcase | hcase
      · omega
      · omega
    · -- Rank 0 has the first block of all.
      obtain ⟨hstart, hlt, hmod⟩ := first_spec (self.atRank 0) hscp start
      have hle : (self.atRank 0).first start ≤ self.scpSize :=
        first_le start hlt (Nat.le_of_not_le hbeyond) (by rw [hmod]; exact Nat.mod_self _)
      rcases h 0 hscp with hcase | hcase
      · omega
      · have hself := Nat.mod_eq_of_lt hcase
        have hsame : (self.atRank 0).first start % self.scpSize = 0 := hmod
        omega

theorem eq_of_flatMap_eq {γ δ : Type} {l : List γ} {f g : γ → List δ}
    (hlength : ∀ x ∈ l, (f x).length = (g x).length) (h : l.flatMap f = l.flatMap g) :
    ∀ x ∈ l, f x = g x := by
  induction l with
  | nil => exact fun x hx => absurd hx List.not_mem_nil
  | cons y l ih =>
    rw [List.forall_mem_cons] at hlength
    rw [List.flatMap_cons, List.flatMap_cons] at h
    obtain ⟨hhead, htail⟩ := List.append_inj h hlength.1
    exact List.forall_mem_cons.mpr ⟨hhead, ih hlength.2 htail⟩

theorem eq_of_ownRequests_eq {f g : Nat → List (String × Option Nat)}
    (hlength : ∀ i, (f i).length = (g i).length)
    (h : self.ownRequests metadata f = self.ownRequests metadata g) {i : Nat}
    (hi : i < metadata.batchSize) (hown : self.Own metadata i) : f i = g i := by
  have hparts := eq_of_flatMap_eq (fun j _ => by
    by_cases hj : self.Own metadata j
    · rw [if_pos hj, if_pos hj]
      exact hlength j
    · rw [if_neg hj, if_neg hj]) h i (List.mem_range.mpr hi)
  rw [if_pos hown, if_pos hown] at hparts
  exact hparts

theorem ownRequests_congr {f g : Nat → List (String × Option Nat)}
    (h : ∀ i < metadata.batchSize, self.Own metadata i → f i = g i) :
    self.ownRequests metadata f = self.ownRequests metadata g := by
  refine List.flatMap_congr fun i hi => ?_
  by_cases hown : self.Own metadata i
  · rw [if_pos hown, if_pos hown]
    exact h i (List.mem_range.mp hi) hown
  · rw [if_neg hown, if_neg hown]

section Batch

variable {prompts : Nat → List Int64} {tables : Nat → List Nat}
  (hprefill : metadata.isPrefill = true)
  (hids : metadata.inputIds = (List.range metadata.batchSize).flatMap prompts)
  (hprompts : ∀ i < metadata.batchSize, (prompts i).length = metadata.batchSeqLen i)
  (hrows : ∀ i < metadata.batchSize, inferContext.seqLens i ≤ (inferContext.allInputIds i).length)
  (hfit : self.RowsFit metadata inferContext tables) (hrank' : rank < self.scpSize)

include hblockSize hprefill hrows hfit hrank' in
theorem put_eq : ∃ entries,
    (self.atRank rank).putPrefixKvcacheToMempool (withTables metadata tables) inferContext =
        some entries ∧
      entries.map found = self.ownRequests metadata fun i =>
        (self.atRank rank).emitted (inferContext.allInputIds i) metadata.maxBlockSize (tables i)
          (self.putStart metadata i) (putStop metadata inferContext i) := by
  unfold putPrefixKvcacheToMempool
  by_cases hnone : !(withTables metadata tables).isPrefill ∨
      ∀ i ∈ List.range (withTables metadata tables).batchSize,
        (withTables metadata tables).batchDpRankIds i ≠ (self.atRank rank).attnDpRank
  · rw [if_pos hnone]
    refine ⟨[], rfl, Eq.symm ?_⟩
    refine List.flatMap_eq_nil_iff.mpr fun i hi => ?_
    rcases hnone with hnot | hother
    · have htrue : (withTables metadata tables).isPrefill = true := hprefill
      rw [htrue] at hnot
      exact absurd hnot Bool.false_ne_true
    · exact if_neg (hother i hi)
  · rw [if_neg hnone]
    have hrequest : ∀ i ∈ List.range metadata.batchSize, ∃ entries,
        (self.atRank rank).putRequest (withTables metadata tables) inferContext i = some entries ∧
          entries.map found = if self.Own metadata i then
            (self.atRank rank).emitted (inferContext.allInputIds i) metadata.maxBlockSize (tables i)
              (self.putStart metadata i) (putStop metadata inferContext i) else [] := by
      intro i hi
      have hi' := List.mem_range.mp hi
      by_cases hown : self.Own metadata i
      · exact putRequest_eq (self.atRank rank) (withTables metadata tables) hrank'
          hblockSize (hrows i hi') fun b hb => hfit i hi' hown b (Or.inl hb)
      · have hne : (withTables metadata tables).batchDpRankIds i ≠ (self.atRank rank).attnDpRank :=
          hown
        unfold putRequest
        rw [if_pos hne, if_neg hown]
        exact ⟨[], rfl, rfl⟩
    obtain ⟨entries, hentries, hmap⟩ := Dict.exists_mapM_map hrequest
    refine ⟨entries.flatten, ?_, ?_⟩
    · show ((List.range metadata.batchSize).mapM
        ((self.atRank rank).putRequest (withTables metadata tables) inferContext) >>=
          fun entries => some entries.flatten) = _
      rw [hentries]
      rfl
    · rw [List.map_flatten, hmap]
      rfl

include hblockSize hids hprompts hfit hrank' in
theorem get_eq (hremote : metadata.remoteComputedBlocks ≠ none) : ∃ entries,
    (self.atRank rank).getPrefixKvcacheFromMempool (withTables metadata tables) = some entries ∧
      entries.map found = self.ownRequests metadata fun i =>
        (self.atRank rank).emitted (prompts i) metadata.maxBlockSize (tables i)
          (self.getStart metadata i) (self.getStop metadata i) := by
  obtain ⟨remote, hsome⟩ := Option.ne_none_iff_exists'.mp hremote
  have hnone : ¬(1 < (self.atRank rank).scpSize ∧
      (withTables metadata tables).remoteComputedBlocks = none) := fun h => hremote h.2
  unfold getPrefixKvcacheFromMempool
  rw [if_neg hnone]
  refine getLoop_eq (self.atRank rank) (withTables metadata tables) prompts ?_ (fun i hi => hprompts i (List.mem_range.mp hi)) 0 hids
  intro i hi offset rest hoffset
  have hi' := List.mem_range.mp hi
  by_cases hown : self.Own metadata i
  · exact getRequest_eq (self.atRank rank) (withTables metadata tables) hrank'
      hblockSize hsome hoffset (hprompts i hi') fun b hb => hfit i hi' hown b (Or.inr hb)
  · have hne : (withTables metadata tables).batchDpRankIds i ≠ (self.atRank rank).attnDpRank := hown
    unfold getRequest
    rw [if_pos hne, if_neg hown]
    exact ⟨[], rfl, rfl⟩

end Batch

/-- The tables whose blocks are the places. -/
def places (self : PrefixCachePlugin) (metadata : InputMetadata) (inferContext : InferContext)
    (i : Nat) : List Nat :=
  List.range (putStop metadata inferContext i + self.getStop metadata i)

theorem div_lt_places {b i : Nat} (hb : b < putStop metadata inferContext i ∨ b < self.getStop metadata i) :
    b / self.scpSize < putStop metadata inferContext i + self.getStop metadata i := by
  have hle := Nat.div_le_self b self.scpSize
  omega

theorem rowsFit_places : self.RowsFit metadata inferContext (self.places metadata inferContext) := by
  intro i _ _ b hb
  unfold places
  rw [List.length_range]
  exact div_lt_places hb

/-- For every batch: what is written and read pairs every block with its place in the row, on all
ranks, if and only if there is one rank or, in each request of this data-parallel rank, the emitted blocks
begin with the first block or all are in the first place. -/
theorem put_get_ok_iff {prompts : Nat → List Int64} (hscp : 0 < self.scpSize)
    (hblockSize : 0 < metadata.maxBlockSize) (hprefill : metadata.isPrefill = true)
    (hids : metadata.inputIds = (List.range metadata.batchSize).flatMap prompts)
    (hprompts : ∀ i < metadata.batchSize, (prompts i).length = metadata.batchSeqLen i)
    (hrows : ∀ i < metadata.batchSize,
      inferContext.seqLens i ≤ (inferContext.allInputIds i).length) :
    self.PutGetOk metadata inferContext prompts ↔
      self.scpSize = 1 ∨ ∀ i < metadata.batchSize, self.Own metadata i →
        Unshifted self.scpSize (self.putStart metadata i) (putStop metadata inferContext i) ∧
          Unshifted self.scpSize (self.getStart metadata i) (self.getStop metadata i) := by
  constructor
  · rintro ⟨hput, hget, _⟩
    by_cases hone : self.scpSize = 1
    · exact Or.inl hone
    · refine Or.inr fun i hi hown => ⟨?_, ?_⟩
      · refine (unshifted_iff hscp).mpr fun rank hrank => ?_
        obtain ⟨entries, hentries, hmap⟩ := hput _ rowsFit_places rank hrank
        obtain ⟨entries', hentries', hmap'⟩ := put_eq hblockSize hprefill hrows rowsFit_places hrank
        obtain rfl := Option.some.inj (hentries.symm.trans hentries')
        have hsame := eq_of_ownRequests_eq (fun j => length_emitted hrank) (hmap'.symm.trans hmap) hi
          hown
        exact (first_of_emitted_eq hrank (fun b hb => div_lt_places (Or.inl hb)) hsame).resolve_left
          hone
      · by_cases hremote : metadata.remoteComputedBlocks = none
        · refine Or.inr (Or.inr ?_)
          unfold getStop
          rw [hremote]
          exact Nat.le_trans (Nat.min_le_left _ _) (Nat.zero_le _)
        · refine (unshifted_iff hscp).mpr fun rank hrank => ?_
          obtain ⟨entries, hentries, hmap⟩ := hget hremote _ rowsFit_places rank hrank
          obtain ⟨entries', hentries', hmap'⟩ := get_eq hblockSize hids hprompts rowsFit_places hrank
            hremote
          obtain rfl := Option.some.inj (hentries.symm.trans hentries')
          have hsame := eq_of_ownRequests_eq (fun j => length_emitted hrank) (hmap'.symm.trans hmap) hi
            hown
          exact (first_of_emitted_eq hrank (fun b hb => div_lt_places (Or.inr hb)) hsame).resolve_left
            hone
  · intro h
    refine ⟨fun tables hfit rank hrank => ?_, fun hremote tables hfit rank hrank => ?_,
      fun start stop => flatMap_turns hscp start stop⟩
    · obtain ⟨entries, hentries, hmap⟩ := put_eq hblockSize hprefill hrows hfit hrank
      refine ⟨entries, hentries, hmap.trans (ownRequests_congr fun i hi hown => ?_)⟩
      refine emitted_eq_paired hrank ?_
      rcases h with hone | hall
      · exact Or.inl hone
      · exact Or.inr ((unshifted_iff hscp).mp (hall i hi hown).1 rank hrank)
    · obtain ⟨entries, hentries, hmap⟩ := get_eq hblockSize hids hprompts hfit hrank hremote
      refine ⟨entries, hentries, hmap.trans (ownRequests_congr fun i hi hown => ?_)⟩
      refine emitted_eq_paired hrank ?_
      rcases h with hone | hall
      · exact Or.inl hone
      · exact Or.inr ((unshifted_iff hscp).mp (hall i hi hown).2 rank hrank)

/-- A plugin with two ranks. -/
def twoRanks : PrefixCachePlugin := ⟨2, 0, 1, 0, 0, "model"⟩

/-- A batch of one request, with blocks of one token. -/
def oneRequest (tokens : List Int64) (remote : List Nat) : InputMetadata :=
  ⟨1, true, fun _ => 0, fun _ => tokens.length, tokens, 1, fun _ => [7, 8], none,
    some fun _ => remote⟩

/-- Its tokens at the time of writing. -/
def oneContext (tokens : List Int64) : InferContext := ⟨fun _ => tokens, fun _ => tokens.length⟩

/-- Two full blocks, which the pool has. -/
theorem put_get_ok_two : PutGetOk twoRanks (oneRequest [5, 6, 7] [1, 1]) (oneContext [5, 6, 7])
    (fun _ => [5, 6, 7]) := by
  refine (put_get_ok_iff (by decide) (by decide) rfl rfl (fun _ _ => rfl)
    fun _ _ => Nat.le_refl _).mpr (Or.inr fun i hi _ => ⟨Or.inr (Or.inr ?_), Or.inl rfl⟩)
  obtain rfl : i = 0 := Nat.lt_one_iff.mp hi
  decide

/-- Three full blocks, of which the pool has the first: rank 0 writes block 2 from the first place of the
row, which has block 0. -/
theorem not_putGetOk_three : ¬PutGetOk twoRanks (oneRequest [5, 6, 7, 8] [1, 0])
    (oneContext [5, 6, 7, 8]) (fun _ => [5, 6, 7, 8]) := by
  rintro ⟨hput, _, _⟩
  have hfit : twoRanks.RowsFit (oneRequest [5, 6, 7, 8] [1, 0]) (oneContext [5, 6, 7, 8])
      (fun _ => [7, 8]) := by
    intro i hi _ b hb
    obtain rfl : i = 0 := Nat.lt_one_iff.mp hi
    have hput : putStop (oneRequest [5, 6, 7, 8] [1, 0]) (oneContext [5, 6, 7, 8]) 0 = 3 := by decide
    have hget : twoRanks.getStop (oneRequest [5, 6, 7, 8] [1, 0]) 0 = 1 := by decide
    rw [hput, hget] at hb
    show b / 2 < 2
    omega
  obtain ⟨entries, hentries, hmap⟩ := hput _ hfit 0 (by decide)
  have hblocks : ((twoRanks.atRank 0).putPrefixKvcacheToMempool
      (withTables (oneRequest [5, 6, 7, 8] [1, 0]) fun _ => [7, 8]) (oneContext [5, 6, 7, 8])).map
        (List.map Prod.snd) = some [7] := by decide +kernel
  rw [hentries, Option.map_some] at hblocks
  have hseen := congrArg (List.map Prod.snd) hmap
  have hfound : (entries.map found).map Prod.snd = (entries.map Prod.snd).map some := by
    rw [List.map_map, List.map_map]
    rfl
  rw [hfound, Option.some.inj hblocks] at hseen
  revert hseen
  decide +kernel

end PrefixCachePlugin

end UnifiedCache.Mindie
