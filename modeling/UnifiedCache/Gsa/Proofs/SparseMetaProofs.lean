import Mathlib.Algebra.Order.BigOperators.Group.List
import UnifiedCache.Gsa.SparseMeta

/-!
# Proofs: the metadata of a step of GSA on a device

The prefixes are sequences that are packed: the slots in the one buffer are those of their tokens, and
the blocks in the other one are their pages. The loop appends one prefix after the other, and what
comes of it is the packing of all of them as far as the buffers reach.
-/

open Function Lib

namespace UnifiedCache.Gsa.OnDevice

/-! ## Numbers -/

section Numbers

variable {n k size : Nat}

theorem cdiv_le (hsize : 0 < size) (h : n ≤ k * size) : cdiv n size ≤ k := by
  refine Nat.lt_succ_iff.mp (Nat.div_lt_of_lt_mul ?_)
  rw [Nat.mul_comm, Nat.succ_mul]
  omega

theorem le_cdiv_mul (hsize : 0 < size) : n ≤ cdiv n size * size := by
  have hdiv := Nat.div_add_mod' (n + size - 1) size
  have hmod := Nat.mod_lt (n + size - 1) hsize
  unfold cdiv
  omega

theorem cdiv_mul_lt (hsize : 0 < size) : cdiv n size * size < n + size := by
  have hdiv := Nat.div_mul_le_self (n + size - 1) size
  unfold cdiv
  omega

theorem toInt32_eq_iff {x : Int} (hx : 0 ≤ x) : toInt32 x = x ↔ x < int32Limit := by
  constructor
  · intro h
    have hlt : toInt32 x < (UInt32.size + 1) / 2 := Int.bmod_lt (by decide)
    rw [h] at hlt
    simp only [int32Limit]
    simp only [UInt32.size] at hlt
    omega
  · intro h
    refine Int.bmod_eq_of_le_mul_two ?_ ?_ <;> simp only [int32Limit] at h <;>
      simp only [UInt32.size] <;> omega

end Numbers

/-! ## Lists -/

section Lists

variable {α β : Type*}

theorem mapM_eq_map {f : α → Option β} {g : α → β} {l : List α} (h : ∀ x ∈ l, f x = some (g x)) :
    l.mapM f = some (l.map g) := by
  induction l with
  | nil => rfl
  | cons x l ih =>
    rw [List.forall_mem_cons] at h
    rw [List.mapM_cons, h.1, ih h.2]
    rfl

theorem flatMap_eq_iff {F G : α → List β} {l : List α} (h : ∀ x ∈ l, (F x).length = (G x).length) :
    l.flatMap F = l.flatMap G ↔ ∀ x ∈ l, F x = G x := by
  induction l with
  | nil => simp
  | cons x l ih =>
    rw [List.forall_mem_cons] at h
    rw [List.flatMap_cons, List.flatMap_cons, List.forall_mem_cons, ← ih h.2]
    exact ⟨fun heq => List.append_inj heq h.1, fun heq => by rw [heq.1, heq.2]⟩

theorem take_take_append (l xs : List α) (n : Nat) :
    (l.take n ++ xs).take n = (l ++ xs).take n := by
  rcases Nat.le_total l.length n with h | h
  · rw [List.take_of_length_le h]
  · rw [List.take_append_of_le_length h, List.take_append_of_le_length (by
      rw [List.length_take, Nat.min_eq_left h]), List.take_take, Nat.min_self]

variable {buf buf' xs : List α} {start : Nat}

theorem assignSlice_of_le (h : start + xs.length ≤ buf.length) :
    assignSlice buf start (start + xs.length) xs =
      some (buf.take start ++ xs ++ buf.drop (start + xs.length)) := by
  have hsize : ((buf.take (start + xs.length)).drop start).length = xs.length := by
    rw [List.length_drop, List.length_take]
    omega
  unfold assignSlice
  dsimp only
  rw [if_pos hsize]

/-- **A slice is assigned**: of what follows the values in use the buffer takes what it has room for. -/
theorem assignSlice_spec (h : assignSlice buf start (start + xs.length) xs = some buf') :
    buf'.length = buf.length ∧
      buf'.take (start + xs.length) = (buf.take start ++ xs).take buf.length := by
  have hsize : ((buf.take (start + xs.length)).drop start).length =
      min (start + xs.length) buf.length - start := by
    rw [List.length_drop, List.length_take]
  unfold assignSlice at h
  dsimp only at h
  rw [hsize] at h
  split_ifs at h with hfits
  · obtain rfl := Option.some.inj h
    by_cases hroom : start + xs.length ≤ buf.length
    · have hstart : (buf.take start).length = start := by
        rw [List.length_take]
        omega
      have hlen : (buf.take start ++ xs).length = start + xs.length := by
        rw [List.length_append, hstart]
      refine ⟨?_, ?_⟩
      · rw [List.length_append, hlen, List.length_drop]
        omega
      · have hall : (buf.take start ++ xs).take buf.length = buf.take start ++ xs :=
          List.take_of_length_le (by omega)
        rw [List.take_left' hlen, hall]
    · have hnil : xs = [] := List.eq_nil_of_length_eq_zero (by omega)
      subst hnil
      have hall : buf.take start = buf := List.take_of_length_le (by simp at hroom; omega)
      have hrest : buf.drop (start + ([] : List α).length) = [] :=
        List.drop_eq_nil_of_le (by simp at hroom ⊢; omega)
      rw [hall, hrest, List.append_nil, List.append_nil, List.take_of_length_le (Nat.le_refl _),
        List.take_of_length_le (by simp at hroom ⊢; omega)]
      exact ⟨rfl, rfl⟩
  · cases xs with
    | nil => cases h
    | cons x rest =>
      cases rest with
      | cons y rest => cases h
      | nil =>
        obtain rfl := Option.some.inj h
        have hfull : buf.length ≤ start := by
          simp only [List.length_singleton] at hfits
          omega
        have hzero : min (start + [x].length) buf.length - start = 0 := by omega
        rw [hzero, List.replicate_zero, List.append_nil, List.take_of_length_le hfull,
          List.drop_eq_nil_of_le (by omega), List.append_nil,
          List.take_append_of_le_length (Nat.le_refl _), List.take_of_length_le (by omega),
          List.take_of_length_le (Nat.le_refl _)]
        exact ⟨rfl, rfl⟩

end Lists

/-! ## A prefix -/

variable {cfg : Config} {tables : BlockTables} {b : Batch} {slotBuf idBuf : List Int}
  {req : Request} {done : List Request} {pc pc' : PrefixBufs} {m m' : SparseMeta} {row : Nat}

theorem computeQLens_eq (h : b.requests[row]? = some req) :
    b.computeQLens row = req.numScheduledTokens := by
  obtain ⟨hrow, rfl⟩ := List.getElem?_eq_some_iff.mp h
  rw [Batch.computeQLens, Batch.queryStartLoc, Batch.queryStartLoc,
    List.take_succ_eq_append_getElem hrow, List.map_append, List.sum_append, List.map_singleton,
    List.sum_singleton, Nat.add_sub_cancel_left]

/-- What `rebuild_prefix_cache_info_for_req` takes for the prefix. -/
def Request.prefixTokens (req : Request) : Nat := req.numPromptTokens - req.numScheduledTokens

/-- A prefix as a sequence of slots in blocks. -/
def prefixSeq (cfg : Config) (req : Request) : Pages.Seq Int where
  pages := req.blockTable.take (cdiv req.prefixTokens cfg.blockSize)
  length := req.prefixTokens

/-- A slot as it is computed. -/
def slotOf (cfg : Config) (place : Int × Nat) : Int :=
  toInt32 (place.1 * cfg.blockSize) + (place.2 : Int)

/-- The row of the block table has all blocks of the prefix. -/
structure Covers (cfg : Config) (req : Request) : Prop where
  le : req.numScheduledTokens ≤ req.numPromptTokens
  pos : 0 < req.prefixTokens
  le_max : req.prefixTokens ≤ cfg.maxNumTokens
  le_row : req.prefixTokens ≤ req.blockTable.length * cfg.blockSize

theorem Covers.tight (h : Covers cfg req) : (prefixSeq cfg req).Tight cfg.blockSize := by
  have hpages : (prefixSeq cfg req).pages.length = cdiv req.prefixTokens cfg.blockSize := by
    rw [prefixSeq, List.length_take]
    exact Nat.min_eq_left (cdiv_le cfg.blockSize_pos h.le_row)
  refine ⟨h.pos, ?_, ?_⟩
  · rw [hpages]
    exact le_cdiv_mul cfg.blockSize_pos
  · rw [hpages]
    exact cdiv_mul_lt cfg.blockSize_pos

theorem prefixSeq_slots (h : Covers cfg req) : (prefixSeq cfg req).slots cfg.blockSize =
    (List.range req.prefixTokens).map fun token =>
      (req.blockTable.getD (token / cfg.blockSize) 0, token % cfg.blockSize) := by
  refine List.ext_getElem? fun i => ?_
  by_cases hi : i < req.prefixTokens
  · have hblock : i / cfg.blockSize < cdiv req.prefixTokens cfg.blockSize :=
      Nat.div_lt_of_lt_mul (by
        rw [Nat.mul_comm]
        exact hi.trans_le (le_cdiv_mul cfg.blockSize_pos))
    have hrow : i / cfg.blockSize < req.blockTable.length :=
      Nat.div_lt_of_lt_mul (by
        rw [Nat.mul_comm]
        exact hi.trans_le h.le_row)
    rw [Pages.Seq.slots, List.getElem?_take_of_lt (by exact hi),
      Pages.getElem?_slots cfg.blockSize_pos, prefixSeq, List.getElem?_take_of_lt hblock,
      List.getElem?_map, List.getElem?_range hi, Option.map_some, List.getD_eq_getElem?_getD,
      List.getElem?_eq_getElem hrow]
    rfl
  · rw [List.getElem?_eq_none (by
        rw [Pages.Seq.length_slots h.tight]
        exact Nat.le_of_not_lt hi),
      List.getElem?_eq_none (by
        rw [List.length_map, List.length_range]
        exact Nat.le_of_not_lt hi)]

/-- **The prefix of a request**: the slots of its tokens and its blocks. -/
theorem rebuild_eq (h : Covers cfg req) :
    rebuildPrefixCacheInfoForReq cfg req.blockTable req.numPromptTokens req.numScheduledTokens =
      some ⟨req.prefixTokens, cdiv req.prefixTokens cfg.blockSize, (prefixSeq cfg req).pages,
        ((prefixSeq cfg req).slots cfg.blockSize).map (slotOf cfg)⟩ := by
  have hpos := h.pos
  have hslots : ((List.range cfg.maxNumTokens).take req.prefixTokens).mapM (fun token =>
      (req.blockTable.take (cdiv req.prefixTokens cfg.blockSize))[token / cfg.blockSize]?.map
        fun block => toInt32 (block * cfg.blockSize) +
          ((token - token / cfg.blockSize * cfg.blockSize : Nat) : Int)) =
      some (((prefixSeq cfg req).slots cfg.blockSize).map (slotOf cfg)) := by
    rw [prefixSeq_slots h, List.map_map, List.take_range, Nat.min_eq_left h.le_max]
    refine mapM_eq_map fun token htoken => ?_
    have htoken := List.mem_range.mp htoken
    have hblock : token / cfg.blockSize < cdiv req.prefixTokens cfg.blockSize :=
      Nat.div_lt_of_lt_mul (by
        rw [Nat.mul_comm]
        exact htoken.trans_le (le_cdiv_mul cfg.blockSize_pos))
    have hrow : token / cfg.blockSize < req.blockTable.length :=
      Nat.div_lt_of_lt_mul (by
        rw [Nat.mul_comm]
        exact htoken.trans_le h.le_row)
    have hoffset : token - token / cfg.blockSize * cfg.blockSize = token % cfg.blockSize := by
      have := Nat.div_add_mod' token cfg.blockSize
      omega
    rw [List.getElem?_take_of_lt hblock, hoffset, List.getElem?_eq_getElem hrow]
    simp only [Function.comp_apply, List.getD_eq_getElem?_getD, List.getElem?_eq_getElem hrow]
    rfl
  have hsome : ¬ req.numPromptTokens - req.numScheduledTokens = 0 := hpos.ne'
  unfold rebuildPrefixCacheInfoForReq
  dsimp only
  rw [if_neg (Nat.not_lt.mpr h.le), if_neg hsome, Option.bind_eq_bind]
  exact (congrArg (fun o => Option.bind o _) hslots).trans rfl

/-! ## The buffers -/

/-- The places of the tokens of some prefixes. -/
def places (cfg : Config) (done : List Request) : List (Int × Nat) :=
  (done.map (prefixSeq cfg)).flatMap (Pages.Seq.slots cfg.blockSize)

/-- The blocks of some prefixes. -/
def blocks (cfg : Config) (done : List Request) : List Int :=
  (done.map (prefixSeq cfg)).flatMap Pages.Seq.pages

theorem places_append (done done' : List Request) :
    places cfg (done ++ done') = places cfg done ++ places cfg done' := by
  rw [places, List.map_append, List.flatMap_append]
  rfl

theorem places_singleton (req : Request) :
    places cfg [req] = (prefixSeq cfg req).slots cfg.blockSize :=
  List.flatMap_singleton _ _

theorem blocks_append (done done' : List Request) :
    blocks cfg (done ++ done') = blocks cfg done ++ blocks cfg done' := by
  rw [blocks, List.map_append, List.flatMap_append]
  rfl

theorem blocks_singleton (req : Request) : blocks cfg [req] = (prefixSeq cfg req).pages :=
  List.flatMap_singleton _ _

/-- The buffers have the slots and the blocks of some prefixes, as far as these fit. -/
structure Packed (cfg : Config) (slotCap idCap : Nat) (done : List Request) (pc : PrefixBufs) :
    Prop where
  tokens : pc.allPrefixTokens = (places cfg done).length
  blocks : pc.allPrefixBlocks = (blocks cfg done).length
  numPcHit : pc.numPcHit = done.length
  slotBuf_length : pc.prefixSlotMappingBuf.length = slotCap
  idBuf_length : pc.prefixBlockIdsBuf.length = idCap
  slots : pc.prefixSlotMapping = ((places cfg done).map (slotOf cfg)).take slotCap
  ids : pc.prefixBlockIds = (OnDevice.blocks cfg done).take idCap

theorem packed_clear (cfg : Config) (slotBuf idBuf : List Int) :
    Packed cfg slotBuf.length idBuf.length [] (.clear slotBuf idBuf) := by
  refine ⟨rfl, rfl, rfl, rfl, rfl, ?_, ?_⟩
  · rw [places, List.map_nil, List.flatMap_nil, List.map_nil, List.take_nil]
    rfl
  · rw [blocks, List.map_nil, List.flatMap_nil, List.take_nil]
    rfl

/-- The prefix of a request as it is appended. -/
def prefixInfo (cfg : Config) (req : Request) : PrefixInfo :=
  ⟨req.prefixTokens, cdiv req.prefixTokens cfg.blockSize, (prefixSeq cfg req).pages,
    ((prefixSeq cfg req).slots cfg.blockSize).map (slotOf cfg)⟩

theorem Covers.length_slotMapping (h : Covers cfg req) :
    (prefixInfo cfg req).prefixSlotMapping.length = req.prefixTokens := by
  rw [prefixInfo, List.length_map, Pages.Seq.length_slots h.tight]
  rfl

theorem Covers.length_blockIds (h : Covers cfg req) :
    (prefixInfo cfg req).prefixBlockIds.length = cdiv req.prefixTokens cfg.blockSize := by
  rw [prefixInfo, prefixSeq, List.length_take]
  exact Nat.min_eq_left (cdiv_le cfg.blockSize_pos h.le_row)

variable {slotCap idCap : Nat}

/-- **A prefix is appended.** -/
theorem Packed.append (h : Packed cfg slotCap idCap done pc) (hreq : Covers cfg req)
    (happ : pc.append (prefixInfo cfg req) = some pc') :
    Packed cfg slotCap idCap (done ++ [req]) pc' := by
  have hslots := hreq.length_slotMapping
  have hids := hreq.length_blockIds
  simp only [PrefixBufs.append, Option.bind_eq_bind, Option.bind_eq_some_iff, Option.some.injEq]
    at happ
  obtain ⟨slots, hslotBuf, ids, hidBuf, rfl⟩ := happ
  have hn : (prefixInfo cfg req).numPrefixTokens =
      (prefixInfo cfg req).prefixSlotMapping.length := hslots.symm
  have hk : (prefixInfo cfg req).numPrefixBlocks =
      (prefixInfo cfg req).prefixBlockIds.length := hids.symm
  rw [hn] at hslotBuf ⊢
  rw [hk] at hidBuf ⊢
  obtain ⟨hslotLen, hslotTake⟩ := assignSlice_spec hslotBuf
  obtain ⟨hidLen, hidTake⟩ := assignSlice_spec hidBuf
  refine ⟨?_, ?_, ?_, hslotLen.trans h.slotBuf_length, hidLen.trans h.idBuf_length, ?_, ?_⟩
  · rw [places_append, places_singleton, List.length_append, ← h.tokens, prefixInfo, List.length_map]
  · rw [blocks_append, blocks_singleton, List.length_append, ← h.blocks]
    rfl
  · rw [List.length_append, ← h.numPcHit, List.length_singleton]
  · refine hslotTake.trans ?_
    rw [← PrefixBufs.prefixSlotMapping, h.slots, h.slotBuf_length, take_take_append, places_append,
      places_singleton, List.map_append]
    rfl
  · refine hidTake.trans ?_
    rw [← PrefixBufs.prefixBlockIds, h.ids, h.idBuf_length, take_take_append, blocks_append,
      blocks_singleton]
    rfl

theorem Packed.exists_append (h : Packed cfg slotCap idCap done pc) (hreq : Covers cfg req)
    (hslot : (places cfg (done ++ [req])).length ≤ slotCap)
    (hid : (OnDevice.blocks cfg (done ++ [req])).length ≤ idCap) :
    ∃ pc', pc.append (prefixInfo cfg req) = some pc' := by
  have hn : (prefixInfo cfg req).numPrefixTokens =
      (prefixInfo cfg req).prefixSlotMapping.length := hreq.length_slotMapping.symm
  have hk : (prefixInfo cfg req).numPrefixBlocks =
      (prefixInfo cfg req).prefixBlockIds.length := hreq.length_blockIds.symm
  rw [places_append, places_singleton, List.length_append, ← h.tokens] at hslot
  rw [blocks_append, blocks_singleton, List.length_append, ← h.blocks] at hid
  have hslotBuf : assignSlice pc.prefixSlotMappingBuf pc.allPrefixTokens
      (pc.allPrefixTokens + (prefixInfo cfg req).prefixSlotMapping.length)
      (prefixInfo cfg req).prefixSlotMapping = some _ :=
    assignSlice_of_le (by
      rw [h.slotBuf_length, prefixInfo, List.length_map]
      exact hslot)
  have hidBuf : assignSlice pc.prefixBlockIdsBuf pc.allPrefixBlocks
      (pc.allPrefixBlocks + (prefixInfo cfg req).prefixBlockIds.length)
      (prefixInfo cfg req).prefixBlockIds = some _ :=
    assignSlice_of_le (by
      rw [h.idBuf_length]
      exact hid)
  exact ⟨_, by rw [PrefixBufs.append, hn, hk, hslotBuf, hidBuf]; rfl⟩

/-! ## The loop -/

/-- Whether a request has a prefix from outside in its first step. -/
def Batch.IsHit (b : Batch) (row : Nat) (req : Request) : Prop :=
  b.isPrefillFlag row = none ∧ 0 < req.extTokens

instance (row : Nat) (req : Request) : Decidable (b.IsHit row req) :=
  inferInstanceAs (Decidable (_ ∧ _))

/-- The hits among some rows. -/
def Batch.hitsOf (b : Batch) (rows : List Nat) : List Request :=
  rows.filterMap fun row => b.requests[row]?.filter fun req => b.IsHit row req

theorem hitsOf_cons (h : b.requests[row]? = some req) (rows : List Nat) :
    b.hitsOf (row :: rows) = (if b.IsHit row req then [req] else []) ++ b.hitsOf rows := by
  rw [Batch.hitsOf, List.filterMap_cons, h, Option.filter_some]
  by_cases hhit : b.IsHit row req
  · rw [if_pos hhit, if_pos (decide_eq_true hhit)]
    rfl
  · rw [if_neg hhit, if_neg (by simpa using hhit)]
    rfl

/-- The flag after a round. -/
def nextFlag (req : Request) (flag : Option Bool) : Option Bool :=
  if flag ≠ some false ∧ req.numPromptTokens ≤ req.numComputedTokens + req.numScheduledTokens then
    some false
  else some (flag.getD true)

/-- **One round**: a request that decodes is added to the rows, a hit to the buffers. -/
theorem step_eq (h : b.requests[row]? = some req) :
    m.step cfg tables b row =
      (if m.isPrefillFlag row = none ∧ 0 < req.extTokens then do
          let blockTableRow ← tables.getBlockTableRow row req.numScheduledTokens
          let info ← rebuildPrefixCacheInfoForReq cfg blockTableRow req.numPromptTokens
            req.numScheduledTokens
          m.pc.append info
        else some m.pc).map fun pc =>
          { isPrefillFlag :=
              update m.isPrefillFlag row (nextFlag req (m.isPrefillFlag row))
            decodeReqIds := m.decodeReqIds ++ if m.isPrefillFlag row = some false then [row] else []
            pc := pc } := by
  have hself : update m.isPrefillFlag row (m.isPrefillFlag row) = m.isPrefillFlag :=
    update_eq_self row _
  unfold SparseMeta.step
  rw [computeQLens_eq h, h]
  cases hflag : m.isPrefillFlag row with
  | none =>
    simp only [Option.bind_eq_bind, Option.bind_some, reduceCtorEq, if_false, true_and, if_true,
      ne_eq, not_false_eq_true, List.append_nil, nextFlag, SparseMeta.setFlag]
    by_cases hlast : req.numPromptTokens ≤ req.numComputedTokens + req.numScheduledTokens
    all_goals
      by_cases hext : 0 < req.extTokens
      · simp only [hlast, hext, if_true, if_false, update_idem, Option.map_eq_bind,
          Option.bind_assoc, Option.getD_none]
        rfl
      · simp only [hlast, hext, if_true, if_false, update_idem, Option.map_some,
          Option.getD_none]
  | some flag =>
    rw [hflag] at hself
    cases flag with
    | false => simp [nextFlag, hself]
    | true =>
      by_cases hlast : req.numPromptTokens ≤ req.numComputedTokens + req.numScheduledTokens
      · simp [nextFlag, SparseMeta.setFlag, hlast]
      · simp [nextFlag, SparseMeta.setFlag, hlast, hself]

theorem step_flag (h : b.requests[row]? = some req) (hstep : m.step cfg tables b row = some m')
    {row' : Nat} (hne : row' ≠ row) : m'.isPrefillFlag row' = m.isPrefillFlag row' := by
  rw [step_eq h] at hstep
  obtain ⟨pc, -, rfl⟩ := Option.map_eq_some_iff.mp hstep
  exact update_of_ne hne _ _

/-- The loop has come to none of the rows yet. -/
structure Pending (b : Batch) (m : SparseMeta) (rows : List Nat) : Prop where
  nodup : rows.Nodup
  lt : ∀ row ∈ rows, row < b.requests.length
  flag : ∀ row ∈ rows, m.isPrefillFlag row = b.isPrefillFlag row

/-- The next round is one of a request, and it does not come to the other rows. -/
theorem Pending.cons (cfg : Config) (tables : BlockTables) {rows : List Nat}
    (h : Pending b m (row :: rows)) : ∃ req, b.requests[row]? = some req ∧
      m.isPrefillFlag row = b.isPrefillFlag row ∧
      ∀ m', m.step cfg tables b row = some m' → Pending b m' rows := by
  obtain ⟨hnot, hnodup⟩ := List.nodup_cons.mp h.nodup
  obtain ⟨hrow, hlt⟩ := List.forall_mem_cons.mp h.lt
  obtain ⟨hself, hflag⟩ := List.forall_mem_cons.mp h.flag
  have hreq := List.getElem?_eq_getElem hrow
  refine ⟨_, hreq, hself, fun m' hstep => ⟨hnodup, hlt, fun row' hrow' => ?_⟩⟩
  exact (step_flag hreq hstep (by rintro rfl; exact hnot hrow')).trans (hflag row' hrow')

theorem pending_order (b : Batch) (pc : PrefixBufs) : Pending b ⟨b.isPrefillFlag, [], pc⟩ b.order :=
  ⟨b.order_perm.nodup_iff.mpr List.nodup_range,
    fun _ hrow => List.mem_range.mp (b.order_perm.mem_iff.mp hrow), fun _ _ => rfl⟩

/-- The rows of the requests that decode. -/
def Batch.decodeRows (b : Batch) (rows : List Nat) : List Nat :=
  rows.filter fun row => b.isPrefillFlag row = some false

/-- **`decode_req_ids`**: the loop collects the rows of the requests that decode. -/
theorem run_decodeReqIds {rows : List Nat} (hpend : Pending b m rows)
    (h : rows.foldlM (SparseMeta.step cfg tables b) m = some m') :
    m'.decodeReqIds = m.decodeReqIds ++ b.decodeRows rows := by
  induction rows generalizing m with
  | nil =>
    cases h
    exact (List.append_nil _).symm
  | cons row rows ih =>
    obtain ⟨req, hreq, hflag, hnext⟩ := hpend.cons cfg tables
    obtain ⟨m₁, hstep, hrest⟩ := Option.bind_eq_some_iff.mp h
    rw [ih (hnext m₁ hstep) hrest]
    rw [step_eq hreq] at hstep
    obtain ⟨pc, -, rfl⟩ := Option.map_eq_some_iff.mp hstep
    rw [hflag, List.append_assoc]
    congr 1
    rw [Batch.decodeRows, Batch.decodeRows, List.filter_cons]
    by_cases hdec : b.isPrefillFlag row = some false
    · rw [if_pos hdec, if_pos (decide_eq_true hdec)]
      rfl
    · rw [if_neg hdec, if_neg (by simpa using hdec)]
      rfl

section Run

variable (htables : ∀ row req, b.requests[row]? = some req →
  tables.getBlockTableRow row req.numScheduledTokens = some req.blockTable)

include htables

theorem step_pc (h : b.requests[row]? = some req)
    (hflag : m.isPrefillFlag row = b.isPrefillFlag row)
    (hcov : b.IsHit row req → Covers cfg req) :
    (m.step cfg tables b row).map SparseMeta.pc =
      if b.IsHit row req then m.pc.append (prefixInfo cfg req) else some m.pc := by
  rw [step_eq h, Option.map_map, hflag]
  by_cases hhit : b.IsHit row req
  · have hhit' : b.isPrefillFlag row = none ∧ 0 < req.extTokens := hhit
    rw [if_pos hhit, if_pos hhit', htables row req h, Option.bind_eq_bind, Option.bind_some,
      rebuild_eq (hcov hhit), Option.bind_eq_bind, Option.bind_some]
    exact Option.map_id_apply
  · have hhit' : ¬ (b.isPrefillFlag row = none ∧ 0 < req.extTokens) := hhit
    rw [if_neg hhit, if_neg hhit']
    rfl

/-- **The loop packs the prefixes of the hits.** -/
theorem run_packed {rows : List Nat} (hpend : Pending b m rows)
    (hcov : ∀ req ∈ b.hitsOf rows, Covers cfg req) (hm : Packed cfg slotCap idCap done m.pc)
    (h : rows.foldlM (SparseMeta.step cfg tables b) m = some m') :
    Packed cfg slotCap idCap (done ++ b.hitsOf rows) m'.pc := by
  induction rows generalizing m done with
  | nil =>
    cases h
    rwa [Batch.hitsOf, List.filterMap_nil, List.append_nil]
  | cons row rows ih =>
    obtain ⟨req, hreq, hflag, hnext⟩ := hpend.cons cfg tables
    obtain ⟨m₁, hstep, hrest⟩ := Option.bind_eq_some_iff.mp h
    rw [hitsOf_cons hreq] at hcov ⊢
    have hpc := step_pc htables hreq hflag (fun hhit => hcov _ (by simp [hhit]))
    rw [hstep, Option.map_some] at hpc
    rw [← List.append_assoc]
    refine ih (hnext m₁ hstep) (fun req hr => hcov req (List.mem_append_right _ hr)) ?_ hrest
    by_cases hhit : b.IsHit row req
    · rw [if_pos hhit] at hpc ⊢
      exact hm.append (hcov _ (by simp [hhit])) hpc.symm
    · rw [if_neg hhit] at hpc ⊢
      rw [List.append_nil, Option.some.inj hpc]
      exact hm

theorem exists_run {rows : List Nat} (hpend : Pending b m rows)
    (hcov : ∀ req ∈ b.hitsOf rows, Covers cfg req) (hm : Packed cfg slotCap idCap done m.pc)
    (hslot : (places cfg (done ++ b.hitsOf rows)).length ≤ slotCap)
    (hid : (blocks cfg (done ++ b.hitsOf rows)).length ≤ idCap) :
    ∃ m', rows.foldlM (SparseMeta.step cfg tables b) m = some m' := by
  induction rows generalizing m done with
  | nil => exact ⟨m, rfl⟩
  | cons row rows ih =>
    obtain ⟨req, hreq, hflag, hnext⟩ := hpend.cons cfg tables
    rw [hitsOf_cons hreq] at hcov hslot hid
    have hpc := step_pc htables hreq hflag (fun hhit => hcov _ (by simp [hhit]))
    -- the buffers after this round
    obtain ⟨pc, hpc', hpacked⟩ : ∃ pc,
        (m.step cfg tables b row).map SparseMeta.pc = some pc ∧ Packed cfg slotCap idCap
          (done ++ if b.IsHit row req then [req] else []) pc := by
      by_cases hhit : b.IsHit row req
      · rw [if_pos hhit] at hpc hslot hid ⊢
        rw [← List.append_assoc, places_append, List.length_append] at hslot
        rw [← List.append_assoc, blocks_append, List.length_append] at hid
        have hreqCov : Covers cfg req := hcov _ (by simp [hhit])
        obtain ⟨pc, happ⟩ := hm.exists_append hreqCov (by omega) (by omega)
        exact ⟨pc, hpc.trans happ, hm.append hreqCov happ⟩
      · rw [if_neg hhit] at hpc ⊢
        exact ⟨m.pc, hpc, by rwa [List.append_nil]⟩
    obtain ⟨m₁, hstep, rfl⟩ := Option.map_eq_some_iff.mp hpc'
    rw [← List.append_assoc] at hslot hid
    obtain ⟨m', hrun⟩ := ih (hnext m₁ hstep) (fun req hr => hcov req (List.mem_append_right _ hr))
      hpacked hslot hid
    exact ⟨m', Option.bind_eq_some_iff.mpr ⟨m₁, hstep, hrun⟩⟩

end Run

/-! ## The two buffers -/

theorem WellFormed.covers (h : WellFormed cfg tables b slotBuf idBuf) (hreq : req ∈ b.hits) :
    Covers cfg req := by
  have hpos := h.computed_pos req hreq
  have hprompt := h.prompt req hreq
  have hmax := h.prompt_le req hreq
  have hrow := h.blockTable_length req hreq
  refine ⟨by omega, ?_, ?_, ?_⟩ <;> unfold Request.prefixTokens <;> omega

theorem WellFormed.tight (h : WellFormed cfg tables b slotBuf idBuf) :
    ∀ s ∈ b.hits.map (prefixSeq cfg), s.Tight cfg.blockSize := by
  intro s hs
  obtain ⟨req, hreq, rfl⟩ := List.mem_map.mp hs
  exact (h.covers hreq).tight

theorem length_hits_le (b : Batch) : b.hits.length ≤ b.requests.length :=
  (List.length_filterMap_le _ _).trans_eq (b.order_perm.length_eq.trans List.length_range)

theorem length_places (h : ∀ req ∈ done, Covers cfg req) :
    (places cfg done).length = (done.map Request.prefixTokens).sum := by
  induction done with
  | nil => rfl
  | cons req done ih =>
    rw [List.forall_mem_cons] at h
    rw [← List.singleton_append, places_append, places_singleton, List.length_append, ih h.2,
      Pages.Seq.length_slots h.1.tight]
    rfl

theorem WellFormed.length_places_le (h : WellFormed cfg tables b slotBuf idBuf) :
    (places cfg b.hits).length ≤ slotBuf.length := by
  rw [length_places fun req hreq => h.covers hreq, h.slotBuf, Nat.mul_comm]
  refine (List.sum_le_card_nsmul _ cfg.maxNumTokens ?_).trans ?_
  · intro x hx
    obtain ⟨req, hreq, rfl⟩ := List.mem_map.mp hx
    exact (h.covers hreq).le_max
  · rw [List.length_map, Nat.nsmul_eq_mul]
    exact Nat.mul_le_mul_right _ ((length_hits_le b).trans h.requests_le)

theorem WellFormed.packed (h : WellFormed cfg tables b slotBuf idBuf)
    (hrun : buildSparseMeta cfg tables b slotBuf idBuf = some m) :
    Packed cfg slotBuf.length idBuf.length b.hits m.pc := by
  have := run_packed h.tables (pending_order b _) (fun req hreq => h.covers hreq)
    (packed_clear cfg slotBuf idBuf) hrun
  rwa [List.nil_append] at this

theorem WellFormed.prefixSlotMapping (h : WellFormed cfg tables b slotBuf idBuf)
    (hrun : buildSparseMeta cfg tables b slotBuf idBuf = some m) :
    m.pc.prefixSlotMapping = (places cfg b.hits).map (slotOf cfg) := by
  rw [(h.packed hrun).slots]
  refine List.take_of_length_le ?_
  rw [List.length_map]
  exact h.length_places_le

theorem map_places (h : ∀ req ∈ done, Covers cfg req) :
    (places cfg done).map (slotOf cfg) = done.flatMap fun req =>
      (List.range req.prefixTokens).map fun token =>
        slotOf cfg (req.blockTable.getD (token / cfg.blockSize) 0, token % cfg.blockSize) := by
  rw [places, List.flatMap_map, List.map_flatMap]
  refine List.flatMap_congr fun req hreq => ?_
  rw [prefixSeq_slots (h req hreq), List.map_map]
  rfl

theorem WellFormed.block_nonneg (h : WellFormed cfg tables b slotBuf idBuf) (hreq : req ∈ b.hits)
    (i : Nat) : 0 ≤ req.blockTable.getD i 0 := by
  rw [List.getD_eq_getElem?_getD]
  cases hi : req.blockTable[i]? with
  | none => exact Int.le_refl _
  | some block => exact h.blockTable_nonneg req hreq block (List.mem_of_getElem? hi)

theorem slotOf_eq_iff {block : Int} (hblock : 0 ≤ block) (i : Nat) :
    slotOf cfg (block, i) = block * cfg.blockSize + (i : Int) ↔
      block * cfg.blockSize < int32Limit := by
  rw [← toInt32_eq_iff (Int.mul_nonneg hblock (Int.natCast_nonneg _)), slotOf]
  exact Int.add_left_inj _

/-- **The slots are right** if and only if the rest of every prompt is in this step and the slots of the
blocks fit. -/
theorem WellFormed.slots_iff (h : WellFormed cfg tables b slotBuf idBuf) :
    ((places cfg b.hits).map (slotOf cfg) =
        b.hits.flatMap fun req => (List.range req.numComputedTokens).map (req.slot cfg)) ↔
      (∀ req ∈ b.hits, req.numComputedTokens + req.numScheduledTokens = req.numPromptTokens) ∧
        ∀ req ∈ b.hits, ∀ token < req.numComputedTokens,
          req.blockTable.getD (token / cfg.blockSize) 0 * cfg.blockSize < int32Limit := by
  have hcov : ∀ req ∈ b.hits, Covers cfg req := fun req hreq => h.covers hreq
  have hle : ∀ req ∈ b.hits, req.numComputedTokens ≤ req.prefixTokens := by
    intro req hreq
    have := h.prompt req hreq
    unfold Request.prefixTokens
    omega
  -- where the lengths agree, it is a matter of single tokens
  have hpointwise : (∀ req ∈ b.hits, req.prefixTokens = req.numComputedTokens) →
      ((places cfg b.hits).map (slotOf cfg) =
          b.hits.flatMap (fun req => (List.range req.numComputedTokens).map (req.slot cfg)) ↔
        ∀ req ∈ b.hits, ∀ token < req.numComputedTokens,
          req.blockTable.getD (token / cfg.blockSize) 0 * cfg.blockSize < int32Limit) := by
    intro hlen
    rw [map_places hcov, flatMap_eq_iff fun req hreq => by simp [hlen req hreq]]
    refine forall₂_congr fun req hreq => ?_
    rw [hlen req hreq, List.map_inj_left]
    refine forall_congr' fun token => ?_
    rw [List.mem_range, Request.slot]
    exact forall_congr' fun _ => slotOf_eq_iff (h.block_nonneg hreq _) _
  have hwhole : (∀ req ∈ b.hits, req.prefixTokens = req.numComputedTokens) ↔
      ∀ req ∈ b.hits, req.numComputedTokens + req.numScheduledTokens = req.numPromptTokens := by
    refine forall₂_congr fun req hreq => ?_
    have := h.prompt req hreq
    unfold Request.prefixTokens
    omega
  constructor
  · intro heq
    have hlen : ∀ req ∈ b.hits, req.prefixTokens = req.numComputedTokens := by
      by_contra hnot
      obtain ⟨req, hnot⟩ := not_forall.mp hnot
      obtain ⟨hreq, hne⟩ := Classical.not_imp.mp hnot
      have hlt := List.sum_lt_sum Request.numComputedTokens Request.prefixTokens hle
        ⟨req, hreq, Nat.lt_of_le_of_ne (hle req hreq) (Ne.symm hne)⟩
      have hlengths := congrArg List.length heq
      rw [List.length_map, length_places hcov, List.length_flatMap] at hlengths
      simp only [List.length_map, List.length_range] at hlengths
      exact hlt.ne' hlengths
    exact ⟨hwhole.mp hlen, (hpointwise hlen).mp heq⟩
  · rintro ⟨hall, hsmall⟩
    exact (hpointwise (hwhole.mpr hall)).mpr hsmall

theorem keyRows_eq {κ : Type*} (pc : PrefixBufs) (cache : Int → Nat → κ) :
    pc.keyRows cfg cache =
      (Pages.slots cfg.blockSize pc.prefixBlockIds).map fun place => cache place.1 place.2 := by
  rw [PrefixBufs.keyRows, Pages.slots, List.map_flatMap]
  simp only [List.map_map]
  rfl

theorem keyAt_slot {κ : Type*} (cache : Int → Nat → κ) (block : Int) {i : Nat}
    (hi : i < cfg.blockSize) : keyAt cfg cache (block * cfg.blockSize + (i : Int)) = cache block i := by
  have hpos := cfg.blockSize_pos
  have hdiv : (block * cfg.blockSize + (i : Int)) / cfg.blockSize = block := by
    rw [Int.add_comm, Int.add_mul_ediv_right _ _ (by omega),
      Int.ediv_eq_zero_of_lt (by omega) (by omega), Int.zero_add]
  have hmod : (block * cfg.blockSize + (i : Int)) % cfg.blockSize = i := by
    rw [Int.add_comm, Int.add_mul_emod_self_right, Int.emod_eq_of_lt (by omega) (by omega)]
  rw [keyAt, hdiv, hmod, Int.toNat_natCast]

section Whole

variable (hwf : WellFormed cfg tables b slotBuf idBuf)
  (hwhole : ∀ req ∈ b.hits, req.numComputedTokens + req.numScheduledTokens = req.numPromptTokens)
  (hsmall : ∀ req ∈ b.hits, ∀ token < req.numComputedTokens,
    req.blockTable.getD (token / cfg.blockSize) 0 * cfg.blockSize < int32Limit)

include hwf hwhole

theorem prefixTokens_eq (hreq : req ∈ b.hits) : req.prefixTokens = req.numComputedTokens := by
  have := hwhole req hreq
  have := hwf.prompt req hreq
  unfold Request.prefixTokens
  omega

/-- **The blocks are those of the slots** if and only if all prefixes but the last one fill their
blocks. -/
theorem places_prefix_iff : places cfg b.hits <+: Pages.slots cfg.blockSize (blocks cfg b.hits) ↔
    ∀ req ∈ b.hits.dropLast, req.numComputedTokens % cfg.blockSize = 0 := by
  rw [places, blocks, Pages.Seq.packed_prefix_iff cfg.blockSize_pos hwf.tight, ← List.map_dropLast,
    List.forall_mem_map]
  refine forall₂_congr fun req hreq => ?_
  rw [← prefixTokens_eq hwf hwhole (List.mem_of_mem_dropLast hreq)]
  rfl

theorem length_blocks_le (hfull : ∀ req ∈ b.hits.dropLast, req.numComputedTokens % cfg.blockSize = 0) :
    (blocks cfg b.hits).length ≤ idBuf.length := by
  have hmod : ∀ s ∈ (b.hits.map (prefixSeq cfg)).dropLast, s.length % cfg.blockSize = 0 := by
    rw [← List.map_dropLast, List.forall_mem_map]
    intro req hreq
    rw [← hfull req hreq, ← prefixTokens_eq hwf hwhole (List.mem_of_mem_dropLast hreq)]
    rfl
  have hlt := Pages.Seq.pages_lt cfg.blockSize_pos hwf.tight hmod
  have hsum : ((b.hits.map (prefixSeq cfg)).map Pages.Seq.length).sum ≤ slotBuf.length := by
    rw [List.map_map]
    exact (length_places fun req hreq => hwf.covers hreq).symm.trans_le hwf.length_places_le
  rw [hwf.slotBuf] at hsum
  rw [hwf.idBuf, cdiv, Nat.le_div_iff_mul_le cfg.blockSize_pos, blocks]
  omega

include hsmall

theorem keyAt_place {κ : Type*} (cache : Int → Nat → κ) {place : Int × Nat}
    (hplace : place ∈ places cfg b.hits) :
    keyAt cfg cache (slotOf cfg place) = cache place.1 place.2 := by
  obtain ⟨s, hs, hin⟩ := List.mem_flatMap.mp hplace
  obtain ⟨req, hreq, rfl⟩ := List.mem_map.mp hs
  rw [prefixSeq_slots (hwf.covers hreq), prefixTokens_eq hwf hwhole hreq] at hin
  obtain ⟨token, htoken, rfl⟩ := List.mem_map.mp hin
  rw [(slotOf_eq_iff (hwf.block_nonneg hreq _) _).mpr
    (hsmall req hreq token (List.mem_range.mp htoken))]
  exact keyAt_slot cache _ (Nat.mod_lt _ cfg.blockSize_pos)

/-- **The keys are right** if and only if the blocks are those of the slots. -/
theorem keys_iff (hmapping : pc.prefixSlotMapping = (places cfg b.hits).map (slotOf cfg)) :
    (∀ {κ : Type} (cache : Int → Nat → κ), ∀ i < pc.prefixSlotMapping.length,
      (pc.keyRows cfg cache)[i]? = pc.prefixSlotMapping[i]?.map (keyAt cfg cache)) ↔
    places cfg b.hits <+: Pages.slots cfg.blockSize pc.prefixBlockIds := by
  have hkey : ∀ {κ : Type} (cache : Int → Nat → κ) (i : Nat) (hi : i < (places cfg b.hits).length),
      pc.prefixSlotMapping[i]?.map (keyAt cfg cache) =
        some (cache (places cfg b.hits)[i].1 (places cfg b.hits)[i].2) := by
    intro κ cache i hi
    rw [hmapping, List.getElem?_map, List.getElem?_eq_getElem hi, Option.map_some, Option.map_some,
      keyAt_place hwf hwhole hsmall cache (List.getElem_mem hi)]
  have hlen : pc.prefixSlotMapping.length = (places cfg b.hits).length := by
    rw [hmapping, List.length_map]
  rw [List.prefix_iff_getElem?, hlen]
  constructor
  · intro h i hi
    have hrow := h (fun block offset => (block, offset)) i hi
    rw [hkey _ i hi, keyRows_eq, List.map_id'] at hrow
    exact hrow
  · intro h κ cache i hi
    rw [hkey cache i hi, keyRows_eq, List.getElem?_map, h i hi, Option.map_some]

end Whole

/-! ## Block tables -/

theorem getBlockTableRow_gqa (h : b.requests[row]? = some req) (qlen : Nat) :
    (BlockTables.gqa (b.requests.map Request.blockTable)).getBlockTableRow row qlen =
      some req.blockTable := by
  rw [BlockTables.getBlockTableRow, List.getElem?_map, h]
  rfl

theorem mem_of_hits (h : req ∈ b.hits) : req ∈ b.requests := by
  obtain ⟨row, -, hrow⟩ := List.mem_filterMap.mp h
  exact List.mem_of_getElem? (Option.filter_eq_some_iff.mp hrow).1

/-! ## Hashing the prefixes again -/

/-- **Prefixes are hashed again**: the loop ends without an exception and the two buffers agree with
each other and with the computed tokens, exactly if the prefixes can be packed. Then every slot in the
buffer receives the hash of its own key. -/
theorem prefix_aligned_iff (hwf : WellFormed cfg tables b slotBuf idBuf) :
    ((∃ m, buildSparseMeta cfg tables b slotBuf idBuf = some m ∧ Aligned cfg b m.pc) ↔
      b.Packs cfg) ∧
    ∀ m, buildSparseMeta cfg tables b slotBuf idBuf = some m → Aligned cfg b m.pc →
      ∀ {κ : Type} (cache : Int → Nat → κ), m.pc.rehash cfg cache =
        m.pc.prefixSlotMapping.map fun slot => (slot, keyAt cfg cache slot) := by
  refine ⟨⟨?_, fun hpacks => ?_⟩, ?_⟩
  · rintro ⟨m, hrun, haligned⟩
    have hmapping := hwf.prefixSlotMapping hrun
    obtain ⟨hwhole, hsmall⟩ := hwf.slots_iff.mp (hmapping.symm.trans haligned.slots)
    have hplaces := (keys_iff hwf hwhole hsmall hmapping).mp haligned.keys
    refine ⟨hwhole, (places_prefix_iff hwf hwhole).mp (hplaces.trans ?_), hsmall⟩
    rw [(hwf.packed hrun).ids]
    obtain ⟨rest, hrest⟩ := List.take_prefix idBuf.length (blocks cfg b.hits)
    exact ⟨Pages.slots cfg.blockSize rest, by rw [← Pages.slots_append, hrest]⟩
  · have hids := length_blocks_le hwf hpacks.whole hpacks.full
    obtain ⟨m, hrun⟩ : ∃ m, buildSparseMeta cfg tables b slotBuf idBuf = some m := by
      refine exists_run hwf.tables (pending_order b _)
        (fun req hreq => hwf.covers hreq) (packed_clear cfg slotBuf idBuf) ?_ ?_
      · rw [List.nil_append]
        exact hwf.length_places_le
      · rw [List.nil_append]
        exact hids
    have hmapping := hwf.prefixSlotMapping hrun
    refine ⟨m, hrun, hmapping.trans (hwf.slots_iff.mpr ⟨hpacks.whole, hpacks.small⟩),
      (keys_iff hwf hpacks.whole hpacks.small hmapping).mpr ?_⟩
    rw [(hwf.packed hrun).ids, List.take_of_length_le hids]
    exact (places_prefix_iff hwf hpacks.whole).mpr hpacks.full
  · intro m hrun haligned κ cache
    have hkeys : (m.pc.keyRows cfg cache).take m.pc.prefixSlotMapping.length =
        m.pc.prefixSlotMapping.map (keyAt cfg cache) := by
      refine List.ext_getElem? fun i => ?_
      rw [List.getElem?_map]
      by_cases hi : i < m.pc.prefixSlotMapping.length
      · rw [List.getElem?_take_of_lt hi, haligned.keys cache i hi]
      · rw [List.getElem?_eq_none (Nat.le_of_not_lt hi), List.getElem?_eq_none (by
          rw [List.length_take]
          omega)]
        rfl
    rw [PrefixBufs.rehash, hkeys, ← List.map_prod_left_eq_zip]
    split_ifs with hhit
    · rfl
    · have hnone : b.hits = [] := List.eq_nil_of_length_eq_zero (by
        rw [← (hwf.packed hrun).numPcHit]
        omega)
      rw [haligned.slots, hnone]
      rfl

/-- Blocks of two tokens and sequences of up to four. -/
def Config.two : Config := ⟨2, 4, 2, Nat.two_pos⟩

/-- Two prompts of four tokens, of which so many of the first one and two of the second one come from
outside. -/
def Batch.two (computed : Nat) (h : computed < 4) : Batch where
  requests := [⟨4 - computed, computed, 4, computed, [0, 1]⟩, ⟨2, 2, 4, 2, [2, 3]⟩]
  order := [0, 1]
  isPrefillFlag _ := none
  order_perm := .refl _
  scheduled_pos := List.forall_mem_cons.mpr ⟨Nat.sub_pos_of_lt h, by decide⟩

/-- The block tables of these. -/
def BlockTables.two : BlockTables := .gqa [[0, 1], [2, 3]]

theorem two_requests {computed : Nat} (hpos : 0 < computed) (h : computed < 4) :
    ∀ req ∈ (Batch.two computed h).requests, (0 < req.numComputedTokens ∧
      req.numComputedTokens + req.numScheduledTokens ≤ req.numPromptTokens ∧
      req.numPromptTokens ≤ 4) ∧ 4 ≤ req.blockTable.length * 2 ∧ ∀ block ∈ req.blockTable, 0 ≤ block :=
  List.forall_mem_cons.mpr
    ⟨⟨⟨hpos, (Nat.add_sub_cancel' h.le).le, Nat.le_refl 4⟩, Nat.le_refl 4, by simp⟩, by decide⟩

theorem wellFormed_two {computed : Nat} (hpos : 0 < computed) (h : computed < 4) :
    WellFormed .two .two (.two computed h) (List.replicate 8 0) (List.replicate 4 0) where
  requests_le := Nat.le_refl 2
  tables _ _ hreq := getBlockTableRow_gqa hreq _
  computed_pos _ hreq := (two_requests hpos h _ (mem_of_hits hreq)).1.1
  prompt _ hreq := (two_requests hpos h _ (mem_of_hits hreq)).1.2.1
  prompt_le _ hreq := (two_requests hpos h _ (mem_of_hits hreq)).1.2.2
  blockTable_length _ hreq := (two_requests hpos h _ (mem_of_hits hreq)).2.1
  blockTable_nonneg _ hreq := (two_requests hpos h _ (mem_of_hits hreq)).2.2
  slotBuf := List.length_replicate
  idBuf := List.length_replicate

/-- Two prefixes of one block each. -/
theorem prefix_aligned_two :
    ∃ m, buildSparseMeta .two .two (.two 2 (by decide)) (List.replicate 8 0) (List.replicate 4 0) =
      some m ∧ Aligned .two (.two 2 (by decide)) m.pc :=
  (prefix_aligned_iff (wellFormed_two (by decide) (by decide))).1.mpr
    ⟨by decide, by decide, by decide⟩

/-- A prefix of three tokens before another one: what is the first row for the second request, with the
slot 4, is the key in the slot 3. -/
theorem prefix_shifted :
    WellFormed .two .two (.two 3 (by decide)) (List.replicate 8 0) (List.replicate 4 0) ∧
    ∃ m, buildSparseMeta .two .two (.two 3 (by decide)) (List.replicate 8 0) (List.replicate 4 0) =
      some m ∧ m.pc.prefixSlotMapping = [0, 1, 2, 4, 5] ∧
        m.pc.keyRows .two (fun block i => block * 2 + (i : Int)) = [0, 1, 2, 3, 4, 5] ∧
        ¬ Aligned .two (.two 3 (by decide)) m.pc := by
  have hbuild : (buildSparseMeta .two .two (.two 3 (by decide)) (List.replicate 8 0)
      (List.replicate 4 0)).map (fun m => (m.pc.prefixSlotMapping,
        m.pc.keyRows .two (fun block i => block * 2 + (i : Int)))) =
      some ([0, 1, 2, 4, 5], [0, 1, 2, 3, 4, 5]) := by decide
  obtain ⟨m, hrun, hval⟩ := Option.map_eq_some_iff.mp hbuild
  obtain ⟨hslots, hkeys⟩ := Prod.mk.inj hval
  refine ⟨wellFormed_two (by decide) (by decide), m, hrun, hslots, hkeys, fun haligned => ?_⟩
  have hrow := haligned.keys (fun block i => block * 2 + (i : Int)) 3 (by rw [hslots]; decide)
  rw [hslots, hkeys] at hrow
  exact absurd hrow (by decide)

end UnifiedCache.Gsa.OnDevice
