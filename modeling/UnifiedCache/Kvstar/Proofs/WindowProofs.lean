import UnifiedCache.Kvstar.Proofs.QueryCaptureProofs
import UnifiedCache.Lib.Pages

/-!
# Tables and windows

How long the table of a request is in a decode step, what there is after the prefill, and when the
windows fit into the table of the first decode step.
-/

open Lib Lib.BlockCache

namespace UnifiedCache.Kvstar

variable {Q η β : Type} {cfg : Config} {outside : Outside Q η β} {prompt : Prompt η}
  {queryOf : Nat → Q} {s : State Q η β} {m : ReqMeta η} {table : List Nat}

/-! ## Tables -/

/-- `num_prefill_fully_block`. -/
def fullyBlk (cfg : Config) (prompt : Prompt η) : Nat := prompt.numPromptTokens / cfg.blockSize

/-- `num_prefill_keep_fixed_blk`. -/
def keepFixedBlk (cfg : Config) (prompt : Prompt η) : Nat :=
  min (cfg.initWindowSz + cfg.localWindowSz) (fullyBlk cfg prompt)

/-- `num_sparse_saved_fully_blk`. -/
def savedFullyBlk (cfg : Config) (prompt : Prompt η) : Nat :=
  ⌈cfg.mulSparseRatio (fullyBlk cfg prompt - keepFixedBlk cfg prompt)⌉₊

theorem ceil_mulSparseRatio_le (cfg : Config) (n : Nat) : ⌈cfg.mulSparseRatio n⌉₊ ≤ n :=
  Nat.ceil_le.mpr (cfg.mulSparseRatio_le n)

theorem savedFullyBlk_le (cfg : Config) (prompt : Prompt η) :
    savedFullyBlk cfg prompt ≤ fullyBlk cfg prompt - keepFixedBlk cfg prompt :=
  ceil_mulSparseRatio_le cfg _

theorem fullyBlk_lt_ceilDiv (cfg : Config) (prompt : Prompt η) {n : Nat} (hn : 0 < n) :
    fullyBlk cfg prompt < (prompt.numPromptTokens + n) ⌈/⌉ cfg.blockSize := by
  have hpos := cfg.blockSize_pos
  rw [← not_le, ceilDiv_le_iff_le_mul hpos, not_le]
  have := Nat.mul_div_le prompt.numPromptTokens cfg.blockSize
  show cfg.blockSize * (prompt.numPromptTokens / cfg.blockSize) < _
  omega

theorem succ_div_mod_of_lt {a b : Nat} (h : a % b + 1 < b) :
    (a + 1) / b = a / b ∧ (a + 1) % b = a % b + 1 := by
  have hb : 0 < b := by omega
  rw [Nat.div_mod_unique hb]
  have := Nat.mod_add_div a b
  omega

theorem succ_div_mod_of_eq {a b : Nat} (h : a % b + 1 = b) :
    (a + 1) / b = a / b + 1 ∧ (a + 1) % b = 0 := by
  have hb : 0 < b := by omega
  rw [Nat.div_mod_unique hb, Nat.mul_add]
  have := Nat.mod_add_div a b
  omega

/-- **The blocks of a decode step**: the prompt is compressed, the rest is dense. -/
theorem estimateNumSlotsSparsed_ceilDiv {n : Nat} (hn : 0 < n) :
    estimateNumSlotsSparsed cfg prompt.numPromptTokens (prompt.numPromptTokens + n) ⌈/⌉
        cfg.blockSize =
      (prompt.numPromptTokens + n) ⌈/⌉ cfg.blockSize -
        (fullyBlk cfg prompt - savedFullyBlk cfg prompt - keepFixedBlk cfg prompt) := by
  have hlt := fullyBlk_lt_ceilDiv cfg prompt hn
  show (if _ then _ else _ : Nat) ⌈/⌉ _ = _
  change (if (prompt.numPromptTokens + n) % cfg.blockSize ≠ 0 then
    ((prompt.numPromptTokens + n) ⌈/⌉ cfg.blockSize - (fullyBlk cfg prompt -
      savedFullyBlk cfg prompt - keepFixedBlk cfg prompt) - 1) * cfg.blockSize +
        (prompt.numPromptTokens + n) % cfg.blockSize
    else ((prompt.numPromptTokens + n) ⌈/⌉ cfg.blockSize - (fullyBlk cfg prompt -
      savedFullyBlk cfg prompt - keepFixedBlk cfg prompt)) * cfg.blockSize) ⌈/⌉ cfg.blockSize = _
  split_ifs with htail
  · rw [Pages.ceilDiv_mul_add (Nat.pos_of_ne_zero htail) (Nat.mod_lt _ cfg.blockSize_pos)]
    omega
  · exact Pages.mul_ceilDiv cfg.blockSize_pos _

theorem map_filter_zipIdx (l : List Nat) (a : Int) (k : Nat) :
    ((l.zipIdx k).filter fun p => (a ≤ p.2 : Bool)).map Prod.fst = l.drop (a - k).toNat := by
  induction l generalizing k with
  | nil => rw [List.drop_nil]; rfl
  | cons x l ih =>
    rw [List.zipIdx_cons, List.filter_cons]
    by_cases h : a ≤ k
    · rw [if_pos (decide_eq_true h), List.map_cons, ih, show (a - k).toNat = 0 by omega,
        show (a - (k + 1 : Nat)).toNat = 0 by omega]
      rfl
    · rw [if_neg (by simpa using h), ih, show (a - k).toNat = (a - (k + 1 : Nat)).toNat + 1 by omega,
        List.drop_succ_cons]

theorem allocateSlots_eq_some {n : Nat} {old new table : List Nat}
    (h : allocateSlots cfg n old new = some table) :
    table = old.drop (old.length - n ⌈/⌉ cfg.blockSize) ++ new ∧
      table.length = n ⌈/⌉ cfg.blockSize := by
  unfold allocateSlots at h
  simp only [map_filter_zipIdx] at h
  split_ifs at h with hlength
  have htable := (Option.some.inj h).symm
  rw [show ((old.length : Int) - (n ⌈/⌉ cfg.blockSize : Nat) - (0 : Nat)).toNat =
    old.length - n ⌈/⌉ cfg.blockSize by omega] at htable hlength
  refine ⟨htable, ?_⟩
  rw [htable, List.length_append, hlength, List.length_drop]
  omega

theorem Scheduled.length {n : Nat} {ds : List (DecodeStep Q)}
    (h : Scheduled cfg prompt table n ds) (hn : 0 < n) {i : Nat} {d : DecodeStep Q}
    (hd : ds[i]? = some d) :
    d.vllmBlockIds.length = (prompt.numPromptTokens + (n + i)) ⌈/⌉ cfg.blockSize -
      (fullyBlk cfg prompt - savedFullyBlk cfg prompt - keepFixedBlk cfg prompt) := by
  induction ds generalizing table n i with
  | nil => cases hd
  | cons d' ds ih =>
    obtain ⟨⟨new, hnew⟩, hrest⟩ := h
    cases i with
    | zero =>
      obtain rfl := Option.some.inj hd
      rw [(allocateSlots_eq_some hnew).2, estimateNumSlotsSparsed_ceilDiv hn]
      rfl
    | succ i =>
      rw [ih hrest (Nat.succ_pos n) hd, Nat.add_right_comm, Nat.add_assoc n i 1]

theorem Scheduled.le_length {n : Nat} {ds : List (DecodeStep Q)}
    (h : Scheduled cfg prompt table n ds) (hn : 0 < n) {d : DecodeStep Q} (hd : d ∈ ds) :
    savedFullyBlk cfg prompt + keepFixedBlk cfg prompt < d.vllmBlockIds.length := by
  obtain ⟨i, hi⟩ := List.mem_iff_getElem?.mp hd
  rw [h.length hn hi]
  have hlt := fullyBlk_lt_ceilDiv cfg prompt (n := n + i) (by omega)
  have hsaved := savedFullyBlk_le cfg prompt
  have hfixed : keepFixedBlk cfg prompt ≤ fullyBlk cfg prompt := Nat.min_le_right _ _
  omega

theorem succ_ceilDiv : (prompt.numPromptTokens + 1) ⌈/⌉ cfg.blockSize = fullyBlk cfg prompt + 1 :=
  Pages.succ_ceilDiv cfg.blockSize_pos _

theorem prompt_ceilDiv : prompt.numPromptTokens ⌈/⌉ cfg.blockSize =
    fullyBlk cfg prompt + if cfg.blockSize ∣ prompt.numPromptTokens then 0 else 1 :=
  Pages.ceilDiv_eq cfg.blockSize_pos _

/-! ## The prefill -/

/-- What `maybe_register_kv_cache` leaves, whether it is the first chunk or not. -/
def State.register (s : State Q η β) (prompt : Prompt η) : State Q η β :=
  { s with registered := true, blockHashes := prompt.blockHashes }

/-- The hashes are those of the prompt once they are there. -/
def Registers (prompt : Prompt η) (s : State Q η β) : Prop :=
  s.registered = true → s.blockHashes = prompt.blockHashes

theorem maybeRegisterKvCache_eq (h : Registers prompt s) (hm : m.blockHashes = prompt.blockHashes) :
    maybeRegisterKvCache s m = s.register prompt := by
  unfold maybeRegisterKvCache
  split_ifs with hreg
  · show s = { s with registered := true, blockHashes := prompt.blockHashes }
    rw [← h hreg, ← hreg]
  · rw [hm]
    rfl

theorem foldl_putQuery_register (ts : List Nat) :
    ts.foldl (putQuery cfg prompt queryOf) (s.register prompt) =
      (ts.foldl (putQuery cfg prompt queryOf) s).register prompt := by
  induction ts generalizing s with
  | nil => rfl
  | cons t ts ih =>
    rw [List.foldl_cons, List.foldl_cons, ← ih]
    rfl

theorem registers_foldl_putQuery (h : Registers prompt s) (ts : List Nat) :
    Registers prompt (ts.foldl (putQuery cfg prompt queryOf) s) := by
  rw [foldl_putQuery_eq]
  exact h

/-- The number of rows of the representation after the prefill, `none` if there is none. -/
def reprRows (cfg : Config) (prompt : Prompt η) (table : List Nat) : Option Nat :=
  if 3 ≤ fullyBlk cfg prompt ∧ 2 ≤ table.getD (fullyBlk cfg prompt - 1) 0 then
    some (innerBlocks cfg (fullyBlk cfg prompt))
  else none

/-- There is a representation after the prefill: three full blocks, and the last of them is not one of the
first two of the pool. -/
def HasRepre (cfg : Config) (prompt : Prompt η) (table : List Nat) : Prop :=
  3 ≤ fullyBlk cfg prompt ∧ 2 ≤ table.getD (fullyBlk cfg prompt - 1) 0

theorem reprRows_of_hasRepre (h : HasRepre cfg prompt table) :
    reprRows cfg prompt table = some (innerBlocks cfg (fullyBlk cfg prompt)) := if_pos h

theorem reprRows_of_not_hasRepre (h : ¬ HasRepre cfg prompt table) :
    reprRows cfg prompt table = none := if_neg h

/-- The state after the prefill, with the last table. -/
def prefilled (cfg : Config) (prompt : Prompt η) (queryOf : Nat → Q) (s : State Q η β) (c : Nat)
    (table : List Nat) : State Q η β :=
  constructInitAndLocalWindow cfg
    { ((lastTokens cfg prompt (List.range' c (prompt.numPromptTokens - c))).foldl
      (putQuery cfg prompt queryOf) s).register prompt with
      blkRepre := reprRows cfg prompt table }
    ⟨prompt.numPromptTokens, 0, 0, 0, table, 0, 0, prompt.blockHashes⟩

theorem extractBlockRepre_eq (hfull : 0 < fullyBlk cfg prompt)
    (htable : fullyBlk cfg prompt ≤ table.length) :
    (extractBlockRepre (table.take (fullyBlk cfg prompt))).map
        (fun blkRepre => blkRepre.bind fun n => if n ≤ 2 then none else some (innerBlocks cfg n)) =
      some (reprRows cfg prompt table) := by
  have hlength : (table.take (fullyBlk cfg prompt)).length = fullyBlk cfg prompt := by
    rw [List.length_take, min_eq_left htable]
  have hlast : (table.take (fullyBlk cfg prompt)).getLast? =
      some (table.getD (fullyBlk cfg prompt - 1) 0) := by
    rw [List.getLast?_eq_getElem?, hlength, List.getElem?_take_of_lt (by omega),
      List.getD_eq_getElem?_getD, List.getElem?_eq_getElem (by omega), Option.getD_some]
  unfold extractBlockRepre reprRows
  rw [hlast]
  show some (Option.bind (if _ then _ else _) _) = _
  rw [hlength]
  split_ifs with hfew hrows hrows
  · omega
  · rfl
  · rw [Option.bind_some, if_neg (by omega)]
  · rw [Option.bind_some, if_pos (by omega)]

theorem forward_prefill {c : Nat} {chunk : Chunk Q} [DecidableEq η]
    (hgroup : (s.groupOf cfg .prefill).length = cfg.retrievalStride) (hreg : Registers prompt s)
    (hend : c + chunk.numScheduledTokens < prompt.numPromptTokens)
    (hreads : chunk.Reads queryOf c) :
    forward cfg outside s (chunk.reqMeta prompt c) chunk.query =
      some (((lastTokens cfg prompt (List.range' c chunk.numScheduledTokens)).foldl
        (putQuery cfg prompt queryOf) s).register prompt) := by
  have hoffload := offloadPrefillQuery_eq hgroup hend.le hreads
  have hlast : ¬ (chunk.reqMeta prompt c).isLastChunk = true := by
    show ¬ decide (prompt.numPromptTokens ≤ c + chunk.numScheduledTokens) = true
    rw [decide_eq_true_eq]
    omega
  show (offloadPrefillQuery cfg s (chunk.reqMeta prompt c) chunk.query).bind _ = _
  rw [hoffload, Option.bind_some]
  show computeBlockRepre cfg (maybeRegisterKvCache _ _) _ _ = _
  rw [maybeRegisterKvCache_eq (registers_foldl_putQuery hreg _) rfl, computeBlockRepre,
    if_neg fun h => hlast h.2]

theorem forward_prefill_last {c : Nat} {chunk : Chunk Q} [DecidableEq η]
    (hgroup : (s.groupOf cfg .prefill).length = cfg.retrievalStride) (hreg : Registers prompt s)
    (hend : c + chunk.numScheduledTokens = prompt.numPromptTokens)
    (hreads : chunk.Reads queryOf c) (hfull : cfg.blockSize ≤ prompt.numPromptTokens)
    (htable : fullyBlk cfg prompt ≤ chunk.vllmBlockIds.length) :
    forward cfg outside s (chunk.reqMeta prompt c) chunk.query =
      some (prefilled cfg prompt queryOf s c chunk.vllmBlockIds) := by
  have hoffload := offloadPrefillQuery_eq hgroup hend.le hreads
  have hextract := extractBlockRepre_eq (Nat.div_pos hfull cfg.blockSize_pos) htable
  have hlast : (chunk.reqMeta prompt c).stage = .prefill ∧
      (chunk.reqMeta prompt c).isLastChunk = true :=
    ⟨rfl, decide_eq_true (show prompt.numPromptTokens ≤ c + chunk.numScheduledTokens by omega)⟩
  obtain ⟨repre, hrepre, hrows⟩ := Option.map_eq_some_iff.mp hextract
  have hnum : prompt.numPromptTokens - c = chunk.numScheduledTokens := by omega
  show (offloadPrefillQuery cfg s (chunk.reqMeta prompt c) chunk.query).bind _ = _
  rw [hoffload, Option.bind_some]
  show computeBlockRepre cfg (maybeRegisterKvCache _ _) _
    ((c + chunk.numScheduledTokens) / cfg.blockSize) = _
  rw [maybeRegisterKvCache_eq (registers_foldl_putQuery hreg _) rfl, computeBlockRepre,
    if_pos hlast, hend]
  show (extractBlockRepre (chunk.vllmBlockIds.take (fullyBlk cfg prompt))).bind _ = _
  rw [hrepre, Option.bind_some, hrows, prefilled, hnum]
  rfl

/-- The chunks of a prefill: they divide the prompt from a block on, each has a token, and the last one
has the blocks of the whole prompt. -/
structure Prefills (cfg : Config) (prompt : Prompt η) (queryOf : Nat → Q) (c : Nat)
    (chunks : List (Chunk Q)) (table : List Nat) : Prop where
  computed : c < prompt.numPromptTokens
  divides : Divides prompt queryOf c chunks
  scheduled : ∀ chunk ∈ chunks, 0 < chunk.numScheduledTokens
  last : chunks.getLast?.map Chunk.vllmBlockIds = some table
  length : table.length = prompt.numPromptTokens ⌈/⌉ cfg.blockSize

theorem fullyBlk_le_ceilDiv : fullyBlk cfg prompt ≤ prompt.numPromptTokens ⌈/⌉ cfg.blockSize := by
  rw [prompt_ceilDiv]
  exact Nat.le_add_right _ _

/-- **The state after the prefill.** -/
theorem prefill_eq {c : Nat} {chunks : List (Chunk Q)} [DecidableEq η]
    (h : Prefills cfg prompt queryOf c chunks table)
    (hgroup : (s.groupOf cfg .prefill).length = cfg.retrievalStride) (hreg : Registers prompt s)
    (hfull : cfg.blockSize ≤ prompt.numPromptTokens) :
    prefill cfg outside prompt s c chunks = some (prefilled cfg prompt queryOf s c table) := by
  induction chunks generalizing c s with
  | nil => cases h.last
  | cons chunk chunks ih =>
    obtain ⟨hreads, hrest⟩ := h.divides
    have hle := hrest.le
    unfold prefill
    cases chunks with
    | nil =>
      have htable : chunk.vllmBlockIds = table := Option.some.inj h.last
      have hend : c + chunk.numScheduledTokens = prompt.numPromptTokens := hrest
      rw [forward_prefill_last hgroup hreg hend hreads hfull]
      · rw [htable]
        rfl
      · rw [htable, h.length]
        exact fullyBlk_le_ceilDiv
    | cons chunk' chunks =>
      have hnext := hrest.2.le
      have hpos := h.scheduled chunk' (List.mem_cons_of_mem _ List.mem_cons_self)
      have hlt : c + chunk.numScheduledTokens < prompt.numPromptTokens := by omega
      have hsplit : List.range' c (prompt.numPromptTokens - c) =
          List.range' c chunk.numScheduledTokens ++ List.range' (c + chunk.numScheduledTokens)
            (prompt.numPromptTokens - (c + chunk.numScheduledTokens)) := by
        rw [List.range'_append_1]
        congr 1
        omega
      have hprefills : Prefills cfg prompt queryOf (c + chunk.numScheduledTokens)
          (chunk' :: chunks) table :=
        ⟨hlt, hrest, fun _ hmem => h.scheduled _ (List.mem_cons_of_mem _ hmem), h.last, h.length⟩
      rw [forward_prefill hgroup hreg hlt hreads]
      show prefill cfg outside prompt _ _ (chunk' :: chunks) = _
      rw [ih hprefills (by
        show (((lastTokens cfg prompt (List.range' c chunk.numScheduledTokens)).foldl
          (putQuery cfg prompt queryOf) s).groupOf cfg .prefill).length = _
        rw [length_groupOf_foldl, hgroup]) fun _ => rfl]
      unfold prefilled
      rw [foldl_putQuery_register, hsplit, lastTokens_append, List.foldl_append]
      rfl

/-! ## Windows in the first decode step -/

/-- The windows fit: they have the same lengths as after the prefill, or one block is broadcast. -/
def WindowsFit (cfg : Config) (prompt : Prompt η) : Prop :=
  cfg.initWindowSz + cfg.localWindowSz ≤ fullyBlk cfg prompt ∨
  (¬ cfg.blockSize ∣ prompt.numPromptTokens ∧
    (fullyBlk cfg prompt ≤ cfg.initWindowSz ∨
      cfg.initWindowSz + cfg.localWindowSz = fullyBlk cfg prompt + 1 ∨ cfg.initWindowSz = 0)) ∨
  (cfg.blockSize ∣ prompt.numPromptTokens ∧
    (cfg.initWindowSz = fullyBlk cfg prompt ∨ cfg.initWindowSz + 1 = fullyBlk cfg prompt))

theorem length_lastItems {α : Type} {n : Nat} (l : List α) (hn : 0 < n) :
    (lastItems n l).length = min n l.length := by
  unfold lastItems
  rw [if_neg (by omega), List.length_drop]
  omega

theorem prepareInitAndLocalWindow_isSome_iff {init loc : List β × List β}
    (hinit : s.initWindow = some init) (hinit' : init.2.length = init.1.length)
    (hloc : s.localWindow = some loc) (hloc' : loc.2.length = loc.1.length) :
    (prepareInitAndLocalWindow cfg s m).isSome ↔
      (init.1.length = (m.vllmBlockIds.take cfg.initWindowSz).length ∨ init.1.length = 1) ∧
      (loc.1.length = (lastItems cfg.localWindowSz m.vllmBlockIds).length ∨ loc.1.length = 1) := by
  have hkey := indexPut_isSome_iff s.kCache (m.vllmBlockIds.take cfg.initWindowSz) init.1
  have hvalue := indexPut_isSome_iff s.vCache (m.vllmBlockIds.take cfg.initWindowSz) init.2
  rw [hinit', ← hkey] at hvalue
  rw [← hkey]
  unfold prepareInitAndLocalWindow
  rw [hinit, hloc]
  show (Option.bind (indexPut s.kCache _ init.1) fun _ => Option.bind (indexPut s.vCache _ init.2)
    fun _ => Option.bind (indexPut _ _ loc.1) fun _ => Option.bind (indexPut _ _ loc.2) _).isSome ↔ _
  cases hk : indexPut s.kCache (m.vllmBlockIds.take cfg.initWindowSz) init.1 with
  | none => simp
  | some kCache =>
    rw [hk] at hvalue
    obtain ⟨vCache, hv⟩ := Option.isSome_iff_exists.mp (hvalue.mpr rfl)
    have hlocal := indexPut_isSome_iff kCache (lastItems cfg.localWindowSz m.vllmBlockIds) loc.1
    have hlocal' := indexPut_isSome_iff vCache (lastItems cfg.localWindowSz m.vllmBlockIds) loc.2
    rw [hloc', ← hlocal] at hlocal'
    rw [hv, Option.bind_some, Option.bind_some, ← hlocal]
    cases hk' : indexPut kCache (lastItems cfg.localWindowSz m.vllmBlockIds) loc.1 with
    | none => simp
    | some kCache' =>
      rw [hk'] at hlocal'
      obtain ⟨vCache', hv'⟩ := Option.isSome_iff_exists.mp (hlocal'.mpr rfl)
      rw [hv']
      simp

theorem prepareInitAndLocalWindow_isSome_iff_of_none {init : List β × List β}
    (hinit : s.initWindow = some init) (hinit' : init.2.length = init.1.length)
    (hloc : s.localWindow = none) :
    (prepareInitAndLocalWindow cfg s m).isSome ↔
      init.1.length = (m.vllmBlockIds.take cfg.initWindowSz).length ∨ init.1.length = 1 := by
  have hkey := indexPut_isSome_iff s.kCache (m.vllmBlockIds.take cfg.initWindowSz) init.1
  have hvalue := indexPut_isSome_iff s.vCache (m.vllmBlockIds.take cfg.initWindowSz) init.2
  rw [hinit', ← hkey] at hvalue
  rw [← hkey]
  unfold prepareInitAndLocalWindow
  rw [hinit, hloc]
  show (Option.bind (indexPut s.kCache _ init.1) fun _ =>
    Option.bind (indexPut s.vCache _ init.2) fun _ => some _).isSome ↔ _
  cases hk : indexPut s.kCache (m.vllmBlockIds.take cfg.initWindowSz) init.1 with
  | none => simp
  | some kCache =>
    rw [hk] at hvalue
    obtain ⟨vCache, hv⟩ := Option.isSome_iff_exists.mp (hvalue.mpr rfl)
    rw [hv]
    simp

theorem windowsFit_iff (hfull : 3 ≤ fullyBlk cfg prompt) :
    WindowsFit cfg prompt ↔
      (min cfg.initWindowSz (prompt.numPromptTokens ⌈/⌉ cfg.blockSize) =
          min cfg.initWindowSz (savedFullyBlk cfg prompt + keepFixedBlk cfg prompt + 1) ∨
        min cfg.initWindowSz (prompt.numPromptTokens ⌈/⌉ cfg.blockSize) = 1) ∧
      (min cfg.localWindowSz (prompt.numPromptTokens ⌈/⌉ cfg.blockSize - cfg.initWindowSz) = 0 ∨
        min cfg.localWindowSz (prompt.numPromptTokens ⌈/⌉ cfg.blockSize - cfg.initWindowSz) =
          min cfg.localWindowSz (savedFullyBlk cfg prompt + keepFixedBlk cfg prompt + 1) ∨
        min cfg.localWindowSz (prompt.numPromptTokens ⌈/⌉ cfg.blockSize - cfg.initWindowSz) = 1) := by
  have hsaved := savedFullyBlk_le cfg prompt
  have hfixed : keepFixedBlk cfg prompt =
    min (cfg.initWindowSz + cfg.localWindowSz) (fullyBlk cfg prompt) := rfl
  unfold WindowsFit
  rw [prompt_ceilDiv]
  by_cases hdvd : cfg.blockSize ∣ prompt.numPromptTokens
  · rw [if_pos hdvd]
    simp only [hdvd, not_true_eq_false, false_and, true_and, false_or]
    omega
  · rw [if_neg hdvd]
    simp only [hdvd, not_false_eq_true, false_and, true_and, or_false]
    omega

theorem prefilled_initWindow {c : Nat} :
    (prefilled cfg prompt queryOf s c table).initWindow =
      some ((table.take cfg.initWindowSz).map s.kCache, (table.take cfg.initWindowSz).map s.vCache) := by
  unfold prefilled
  rw [foldl_putQuery_eq]
  rfl

/-- The number of blocks of the local window that are put aside. -/
def savedLocal (cfg : Config) (table : List Nat) : Nat :=
  min cfg.localWindowSz (table.length - cfg.initWindowSz)

theorem prefilled_localWindow {c : Nat} (hlocal : s.localWindow = none) :
    (prefilled cfg prompt queryOf s c table).localWindow =
      if 0 < savedLocal cfg table then
        some ((lastItems (savedLocal cfg table) table).map s.kCache,
          (lastItems (savedLocal cfg table) table).map s.vCache)
      else none := by
  unfold prefilled savedLocal
  rw [foldl_putQuery_eq, ← hlocal, ← List.length_drop]
  rfl

/-- **The windows of the prefill can be put into the table of the first decode step exactly when they
fit.** -/
theorem prepare_prefilled_isSome_iff {c : Nat} {σ : State Q η β} (hlocal : s.localWindow = none)
    (hinit : σ.initWindow = (prefilled cfg prompt queryOf s c table).initWindow)
    (hloc : σ.localWindow = (prefilled cfg prompt queryOf s c table).localWindow)
    (hlength : table.length = prompt.numPromptTokens ⌈/⌉ cfg.blockSize)
    (hlength' : m.vllmBlockIds.length = savedFullyBlk cfg prompt + keepFixedBlk cfg prompt + 1)
    (hfull : 3 ≤ fullyBlk cfg prompt) :
    (prepareInitAndLocalWindow cfg σ m).isSome ↔ WindowsFit cfg prompt := by
  rw [prefilled_initWindow] at hinit
  rw [prefilled_localWindow hlocal] at hloc
  have hinit' : ((table.take cfg.initWindowSz).map s.vCache).length =
      ((table.take cfg.initWindowSz).map s.kCache).length := by
    rw [List.length_map, List.length_map]
  rw [windowsFit_iff hfull, ← hlength, ← hlength', ← List.length_take, ← List.length_take]
  change _ ↔ _ ∧ (savedLocal cfg table = 0 ∨ savedLocal cfg table = _ ∨ savedLocal cfg table = 1)
  by_cases hpos : 0 < savedLocal cfg table
  · have hlast : (lastItems (savedLocal cfg table) table).length = savedLocal cfg table := by
      rw [length_lastItems _ hpos, savedLocal]
      omega
    have hlocal : 0 < cfg.localWindowSz := by
      unfold savedLocal at hpos
      omega
    rw [if_pos hpos] at hloc
    rw [prepareInitAndLocalWindow_isSome_iff hinit hinit' hloc
      (by rw [List.length_map, List.length_map]), List.length_map, List.length_map, hlast,
      length_lastItems _ hlocal]
    omega
  · rw [if_neg hpos] at hloc
    rw [prepareInitAndLocalWindow_isSome_iff_of_none hinit hinit' hloc, List.length_map]
    exact ⟨fun h => ⟨h, .inl (Nat.eq_zero_of_not_pos hpos)⟩, And.left⟩

end UnifiedCache.Kvstar
