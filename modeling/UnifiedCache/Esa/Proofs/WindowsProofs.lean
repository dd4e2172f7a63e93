import UnifiedCache.Esa.Proofs.SwapAreaProofs
import UnifiedCache.Lib.Pages

/-!
# The windows of ESA at the first decode step

The scheduler counts the tokens of a compressed prompt, and the worker puts the windows back at the two
ends of the table that it gets. They mean the same places if the prompt does not end with a full block.
-/

open Lib Lib.BlockCache Lib.SwapArea

namespace UnifiedCache.Esa

variable {Q η β : Type} {cfg : Config} {s s' s₀ : State Q η β} {m m' : ReqMeta η} {hashes : List η}
  {sparseRange : Nat} {table table' : List Nat}

/-! ## Numbers of blocks -/

/-- `top_k` as a number of blocks. -/
def topKBlocks (cfg : Config) (sparseRange : Nat) : Nat := ⌊(sparseRange : ℚ) * cfg.sparseRatio⌋₊

theorem topK_natCast (cfg : Config) (sparseRange : Nat) :
    topK cfg sparseRange = topKBlocks cfg sparseRange := by
  have hnonneg : 0 ≤ (sparseRange : ℚ) * cfg.sparseRatio :=
    mul_nonneg (Nat.cast_nonneg _) cfg.sparseRatio_nonneg
  show pyInt (((sparseRange : Int) : ℚ) * cfg.sparseRatio) = _
  rw [Int.cast_natCast, pyInt, if_pos hnonneg]
  exact (Int.natCast_floor_eq_floor hnonneg).symm

theorem topKBlocks_le (cfg : Config) (sparseRange : Nat) : topKBlocks cfg sparseRange ≤ sparseRange := by
  apply Nat.floor_le_of_le
  exact mul_le_of_le_one_right (Nat.cast_nonneg _) cfg.sparseRatio_le

/-- What the tables are at the first decode step, where `rest` tokens are behind the blocks that are
compressed. -/
structure Layout (cfg : Config) (sparseRange numTokens numSlots rest : Nat) : Prop where
  rest_pos : 0 < rest
  tokens : numTokens = (cfg.initWindowSz + sparseRange) * cfg.blockSize + rest
  slots : numSlots = (cfg.initWindowSz + topKBlocks cfg sparseRange) * cfg.blockSize + rest + 1

/-- **The scheduler's number of slots**: the blocks that are not retrieved are left out. -/
theorem layout_of_estimate {r : Request} {numSlots : Nat} (hlocal : 1 ≤ cfg.localWindowSz)
    (hrange : Sparse.getSparseRange cfg.initWindowSz cfg.localWindowSz m.numPromptTokens cfg.blockSize =
      sparseRange) (hprompt : r.numPromptTokens = m.numPromptTokens)
    (houtput : r.numOutputTokens = m.numOutputTokens + 1)
    (hestimate : estimateNumSlotsSparsed cfg r = some (numSlots : Int)) :
    ∃ rest, Layout cfg sparseRange m.numTokens numSlots rest := by
  unfold estimateNumSlotsSparsed at hestimate
  rw [hprompt, houtput] at hestimate
  split_ifs at hestimate with hnone
  dsimp only at hestimate
  rw [hrange, topK_natCast] at hestimate
  have hslots := Option.some.inj hestimate
  have hpages := Pages.ceilDiv_eq cfg.blockSize_pos m.numPromptTokens
  have hblocks : m.numPromptTokens ⌈/⌉ cfg.blockSize =
      cfg.initWindowSz + sparseRange + cfg.localWindowSz := by
    rw [Nat.ceilDiv_eq_add_pred_div]
    unfold Sparse.getSparseRange at hrange
    dsimp only at hrange
    omega
  have hdiv := Nat.div_add_mod' m.numPromptTokens cfg.blockSize
  rw [hblocks] at hpages
  obtain ⟨l, hl⟩ : ∃ l, cfg.localWindowSz = l + 1 := ⟨_, (Nat.sub_add_cancel hlocal).symm⟩
  by_cases hdvd : cfg.blockSize ∣ m.numPromptTokens
  · have hmod := Nat.mod_eq_zero_of_dvd hdvd
    rw [if_pos hdvd, Nat.add_zero] at hpages
    rw [if_pos hmod] at hslots
    rw [hmod, Nat.add_zero, ← hpages] at hdiv
    refine ⟨cfg.localWindowSz * cfg.blockSize + m.numOutputTokens, ?_, ?_, ?_⟩
    · have := Nat.mul_pos hlocal cfg.blockSize_pos
      omega
    · show m.numPromptTokens + m.numOutputTokens = _
      rw [← hdiv]
      ring
    · have : ((cfg.initWindowSz * cfg.blockSize + topKBlocks cfg sparseRange * cfg.blockSize +
        cfg.blockSize * cfg.localWindowSz + (m.numOutputTokens + 1) : Nat) : Int) = numSlots := by
          push_cast
          push_cast at hslots
          exact hslots
      rw [← Int.ofNat_inj.mp this]
      ring
  · have hmod : m.numPromptTokens % cfg.blockSize ≠ 0 := fun h => hdvd (Nat.dvd_of_mod_eq_zero h)
    rw [if_neg hdvd, hl] at hpages
    rw [if_neg hmod, hl] at hslots
    rw [show m.numPromptTokens / cfg.blockSize = cfg.initWindowSz + sparseRange + l by omega] at hdiv
    refine ⟨l * cfg.blockSize + m.numPromptTokens % cfg.blockSize + m.numOutputTokens, by omega, ?_, ?_⟩
    · show m.numPromptTokens + m.numOutputTokens = _
      conv_lhs => rw [← hdiv]
      ring
    · have : ((cfg.initWindowSz * cfg.blockSize + topKBlocks cfg sparseRange * cfg.blockSize +
        (m.numPromptTokens % cfg.blockSize + cfg.blockSize * l) + (m.numOutputTokens + 1) : Nat) : Int) =
          numSlots := by
        push_cast
        push_cast at hslots
        rw [← hslots]
        ring
      rw [← Int.ofNat_inj.mp this]
      ring

/-! ## What the blocks hold -/

/-- The block of the prompt that a block holds at the end of the prefill. -/
def promptBlock (table : List Nat) (id : Nat) : Option Nat := table.idxOf? id

/-- The caches that there are. -/
def State.caches (s : State Q η β) : List (Nat → β) := s.kCache :: s.vCache.toList

/-- The blocks have been freed: nothing in the caches is known to be of the prompt. -/
def State.forgotten (s : State Q η (Option Nat)) : State Q η (Option Nat) :=
  { s with kCache := fun _ => none, vCache := s.vCache.map fun _ _ => none }

/-- The number of blocks in the local window that has been put aside. -/
def savedLocal (cfg : Config) (sparseRange : Nat) (m : ReqMeta η) : Nat :=
  m.vllmBlockIds.length - (cfg.initWindowSz + sparseRange)

/-- The blocks that retrieved ones are loaded to. -/
def topKTargets (cfg : Config) (sparseRange : Nat) (m' : ReqMeta η) : List Nat :=
  (m'.vllmBlockIds.take (cfg.initWindowSz + topKBlocks cfg sparseRange)).drop cfg.initWindowSz

/-- What should hold after `attention_begin` of the first decode step, for the table `m` of the prefill
and the new one `m'`. -/
structure WindowsRestored (cfg : Config) (m m' : ReqMeta η) (sparseRange numSlots : Nat)
    (s' : State Q η (Option Nat)) : Prop where
  fits : cfg.initWindowSz + topKBlocks cfg sparseRange + savedLocal cfg sparseRange m ≤
    m'.vllmBlockIds.length
  init : ∀ cache ∈ s'.caches, ∀ i < cfg.initWindowSz, ∀ id, m'.vllmBlockIds[i]? = some id →
    cache id = some i
  loc : ∀ cache ∈ s'.caches, ∀ i < savedLocal cfg sparseRange m, ∀ id,
    m'.vllmBlockIds[cfg.initWindowSz + topKBlocks cfg sparseRange + i]? = some id →
    cache id = some (cfg.initWindowSz + sparseRange + i)
  loads : (s'.launched.flatten.map Prod.fst).Perm (topKTargets cfg sparseRange m')
  /-- No block is in two of the ranges. -/
  apart : (m'.vllmBlockIds.take cfg.initWindowSz ++ s'.launched.flatten.map Prod.fst ++
    (m'.vllmBlockIds.drop (cfg.initWindowSz + topKBlocks cfg sparseRange)).take
      (savedLocal cfg sparseRange m)).Nodup
  /-- There are no other blocks of the compressed prompt. -/
  cover : (numSlots - 1) ⌈/⌉ cfg.blockSize =
    cfg.initWindowSz + topKBlocks cfg sparseRange + savedLocal cfg sparseRange m
  /-- The slot of the new token holds no token of the prompt. -/
  newToken : ∃ id, m'.vllmBlockIds[(numSlots - 1) / cfg.blockSize]? = some id ∧
    ∀ cache ∈ s'.caches, ∀ i, cache id = some i →
      m.numTokens ≤ i * cfg.blockSize + (numSlots - 1) % cfg.blockSize

/-! ## The first decode step -/

theorem putWindow_window {content : Nat → β} {ids ids₀ : List Nat} (hk : s₀.kCache = content)
    (hv : s₀.vCache = s.vCache.map fun _ => content) (hlength : ids₀.length = ids.length) :
    putWindow s ids (window s₀ ids₀) = some { s with
      kCache := writeAll s.kCache ids (ids₀.map content)
      vCache := s.vCache.map fun v => writeAll v ids (ids₀.map content) } := by
  have hmap : (ids₀.map content).length = ids.length := by
    rw [List.length_map, hlength]
  unfold putWindow window
  rw [hk, hv]
  dsimp only
  rw [indexPut_eq hmap, Option.bind_eq_bind, Option.bind_some]
  cases hcache : s.vCache with
  | none =>
    rw [← hcache]
    simp [hcache]
  | some v =>
    show (indexPut v ids (ids₀.map content)).bind _ = _
    rw [indexPut_eq hmap]
    rfl

theorem nodup_retrievedHashes {freeSlots slots : List Nat} {hs : List η}
    (hmap : s.slotsToRelativeIndexes = (freeSlots.take sparseRange).zipIdx)
    (hblock : s.blockHashes = some hashes) (hfree : freeSlots.Nodup) (hhashes : hashes.Nodup)
    (hsub : slots ⊆ freeSlots.take sparseRange) (hslots : slots.Nodup)
    (h : retrievedHashes s slots = some hs) : hs.Nodup := by
  have hkeys : ((freeSlots.take sparseRange).zipIdx.map Prod.fst).Nodup := by
    rw [List.zipIdx_map_fst]
    exact hfree.sublist (List.take_sublist _ _)
  have hget : ∀ slot i, Dict.get? (freeSlots.take sparseRange).zipIdx slot = some i ↔
      (freeSlots.take sparseRange)[i]? = some slot := fun slot i => by
    rw [Dict.get?_eq_some_iff hkeys, List.mem_zipIdx_iff_getElem?]
  unfold retrievedHashes at h
  rw [hmap, hblock] at h
  obtain ⟨relBlockIds, hrel, h⟩ := Option.bind_eq_some_iff.mp h
  have hdistinct : relBlockIds.Nodup := by
    refine Dict.nodup_mapM hslots (fun slot hslot slot' _ heq => ?_) hrel
    obtain ⟨i, hi⟩ := List.mem_iff_getElem?.mp (hsub hslot)
    have hi' := (hget slot' i).mp (heq ▸ (hget slot i).mpr hi)
    exact Option.some.inj (hi.symm.trans hi')
  refine Dict.nodup_mapM hdistinct (fun i hi j _ heq => ?_) h
  have hmem : hashes[i]? ∈ hs.map some := by
    rw [← Dict.map_eq_of_mapM h]
    exact List.mem_map_of_mem hi
  obtain ⟨_, -, hsome⟩ := List.mem_map.mp hmem
  obtain ⟨hlt, -⟩ := List.getElem?_eq_some_iff.mp hsome.symm
  exact (List.getElem?_inj hlt hhashes).mp heq

theorem waitTransferTaskDone_idle (outside : Outside Q η β) (htasks : s.tasks = [])
    (hrope : s.ropeTasks = []) : waitTransferTaskDone outside s = s := by
  unfold waitTransferTaskDone
  cases s
  simp_all

theorem wait_if_tasks [DecidableEq η] (outside : Outside Q η β) (record loads : List (Nat × η))
    (htasks : s.tasks = []) (hrope : s.ropeTasks = []) :
    (if 0 < (startLoad s record loads).tasks.length then
        waitTransferTaskDone outside (startLoad s record loads)
      else startLoad s record loads) = waitTransferTaskDone outside (startLoad s record loads) := by
  by_cases hloads : loads = []
  · subst hloads
    have hidle : (startLoad s record []).tasks = [] := htasks
    rw [waitTransferTaskDone_idle outside hidle hrope, ite_self]
  · refine if_pos ?_
    unfold startLoad
    dsimp only
    rw [if_pos hloads]
    unfold launchTransferTask
    cases s.isMla <;> simp [htasks, Dict.set]

/-- What the retrieval gives: as many of the slots as are wanted, each of them once. -/
def RetrieveOk (outside : Outside Q η β) : Prop :=
  ∀ (task : RetrievalTask Q) (k : Nat), task.topk = k → k ≤ task.slots.length → task.slots.Nodup →
    (outside.retrieve task).Nodup ∧ outside.retrieve task ⊆ task.slots ∧
      (outside.retrieve task).length = k

/-- The state at the end of a prefill with this table, which some models fill for one tensor only. -/
def filled (cfg : Config) (isMla second : Bool) (hashes : List η) (m : ReqMeta η) (sparseRange : Nat)
    (freeSlots : List Nat) : State Q η (Option Nat) :=
  prefilled cfg (State.new isMla (promptBlock m.vllmBlockIds)
    (if second then some (promptBlock m.vllmBlockIds) else none)) hashes m sparseRange freeSlots

/-- The blocks after the windows have been put back. -/
def restored (cfg : Config) (sparseRange : Nat) (m m' : ReqMeta η) : Nat → Option Nat :=
  writeAll (writeAll (fun _ => none) (m'.vllmBlockIds.take cfg.initWindowSz)
      ((m.vllmBlockIds.take cfg.initWindowSz).map (promptBlock m.vllmBlockIds)))
    (m'.vllmBlockIds.drop (m'.vllmBlockIds.length - savedLocal cfg sparseRange m))
    ((m.vllmBlockIds.drop (cfg.initWindowSz + sparseRange)).map (promptBlock m.vllmBlockIds))

/-- The state then. -/
def windowsBack (cfg : Config) (isMla second : Bool) (hashes : List η) (m m' : ReqMeta η)
    (sparseRange : Nat) (freeSlots : List Nat) : State Q η (Option Nat) :=
  { (filled cfg isMla second hashes m sparseRange freeSlots : State Q η (Option Nat)) with
    kCache := restored cfg sparseRange m m'
    vCache := if second then some (restored cfg sparseRange m m') else none }

/-- **The windows are put back**, if there is place for them. -/
theorem restoreAndLoad_eq [DecidableEq η] (outside : Outside Q η (Option Nat)) (isMla second : Bool)
    (hashes : List η) (freeSlots : List Nat) (query : Q) (orders : SetOrders η)
    (hlocal : 0 < savedLocal cfg sparseRange m)
    (hfits : cfg.initWindowSz + savedLocal cfg sparseRange m ≤ m'.vllmBlockIds.length) :
    restoreAndLoad cfg outside (filled cfg isMla second hashes m sparseRange freeSlots).forgotten m'
        query orders =
      waitRetrievalAndStartLoad cfg outside (startRetrieval cfg
        (windowsBack cfg isMla second hashes m m' sparseRange freeSlots) query) m' orders := by
  have hsaved : savedLocal cfg sparseRange m =
    m.vllmBlockIds.length - (cfg.initWindowSz + sparseRange) := rfl
  have hlast : Gsa.Blocks.slice m'.vllmBlockIds
      (-((m.vllmBlockIds.drop (cfg.initWindowSz + sparseRange)).map
        (promptBlock m.vllmBlockIds)).length : Int) m'.vllmBlockIds.length =
      m'.vllmBlockIds.drop (m'.vllmBlockIds.length - savedLocal cfg sparseRange m) := by
    rw [Gsa.Blocks.slice_end, List.length_map, List.length_drop, ← hsaved]
    unfold Gsa.Blocks.sliceIndex
    rw [if_pos (by omega)]
    congr 1
    omega
  let s₀ : State Q η (Option Nat) := State.new isMla (promptBlock m.vllmBlockIds)
    (if second then some (promptBlock m.vllmBlockIds) else none)
  let f : State Q η (Option Nat) := (filled cfg isMla second hashes m sparseRange freeSlots).forgotten
  have hk : s₀.kCache = promptBlock m.vllmBlockIds := rfl
  have hv : s₀.vCache = f.vCache.map fun _ => promptBlock m.vllmBlockIds := by
    cases second <;> rfl
  have hinit := putWindow_window (s := f) hk hv (show (m.vllmBlockIds.take cfg.initWindowSz).length =
      (m'.vllmBlockIds.take cfg.initWindowSz).length by
    rw [List.length_take, List.length_take]
    omega)
  set s₁ : State Q η (Option Nat) := { f with
    kCache := writeAll f.kCache (m'.vllmBlockIds.take cfg.initWindowSz)
      ((m.vllmBlockIds.take cfg.initWindowSz).map (promptBlock m.vllmBlockIds))
    vCache := f.vCache.map fun v => writeAll v (m'.vllmBlockIds.take cfg.initWindowSz)
      ((m.vllmBlockIds.take cfg.initWindowSz).map (promptBlock m.vllmBlockIds)) }
  have hv₁ : s₀.vCache = s₁.vCache.map fun _ => promptBlock m.vllmBlockIds := by
    cases second <;> rfl
  have hloc := putWindow_window (s := s₁) hk hv₁
    (show (m.vllmBlockIds.drop (cfg.initWindowSz + sparseRange)).length =
      (m'.vllmBlockIds.drop (m'.vllmBlockIds.length - savedLocal cfg sparseRange m)).length by
    rw [List.length_drop, List.length_drop]
    omega)
  show (putWindow f (m'.vllmBlockIds.take cfg.initWindowSz)
    (window s₀ (m.vllmBlockIds.take cfg.initWindowSz))).bind (fun s => (putWindow s
      (Gsa.Blocks.slice m'.vllmBlockIds (-((m.vllmBlockIds.drop (cfg.initWindowSz + sparseRange)).map
        (promptBlock m.vllmBlockIds)).length : Int) m'.vllmBlockIds.length)
      (window s₀ (m.vllmBlockIds.drop (cfg.initWindowSz + sparseRange)))).bind fun s =>
        waitRetrievalAndStartLoad cfg outside (startRetrieval cfg s query) m' orders) = _
  rw [hinit, Option.bind_some, hlast, hloc, Option.bind_some]
  cases second <;> rfl

/-- **The first decode step**: the blocks behind the init window are loaded, and all others are as the
windows have left them. -/
theorem attentionBegin_first [DecidableEq η] {outside : Outside Q η (Option Nat)} (isMla second : Bool)
    {freeSlots : List Nat} (query : Q) (orders : SetOrders η) (hstride : 2 ≤ cfg.retrievalStride)
    (hhashes : hashes.length = sparseRange) (hdistinct : hashes.Nodup) (hfree : freeSlots.Nodup)
    (hslots : sparseRange ≤ freeSlots.length) (hretrieve : RetrieveOk outside)
    (hnodup : m'.vllmBlockIds.Nodup) (hlocal : 0 < savedLocal cfg sparseRange m)
    (hfits : cfg.initWindowSz + topKBlocks cfg sparseRange + savedLocal cfg sparseRange m ≤
      m'.vllmBlockIds.length) :
    ∃ s', attentionBegin cfg outside
        (filled cfg isMla second hashes m sparseRange freeSlots).forgotten m' query orders = some s' ∧
      (s'.launched.flatten.map Prod.fst).Perm (topKTargets cfg sparseRange m') ∧
      ∀ cache ∈ s'.caches, ∀ id ∉ topKTargets cfg sparseRange m',
        cache id = restored cfg sparseRange m m' id := by
  set s : State Q η (Option Nat) := startRetrieval cfg
    (windowsBack cfg isMla second hashes m m' sparseRange freeSlots) query
  -- What is between the windows is a swap area, in its first round.
  obtain ⟨-, hready⟩ : Settled outside (filled cfg isMla second hashes m sparseRange freeSlots) ∧
    SlotsHashed (filled cfg isMla second hashes m sparseRange freeSlots : State Q η (Option Nat)) :=
      prefilled_ready outside hhashes hfree rfl rfl rfl
  have hslotsHashed : SlotsHashed s := hready
  have hsettled : Settled outside s :=
    ⟨List.nodup_nil, List.nodup_nil, holds_nil, fun _ _ => holds_nil, rfl, rfl⟩
  have htargets : (topKTargets cfg sparseRange m').Nodup :=
    hnodup.sublist ((List.drop_sublist _ _).trans (List.take_sublist _ _))
  have hlength : (topKTargets cfg sparseRange m').length = topKBlocks cfg sparseRange := by
    unfold topKTargets
    rw [List.length_drop, List.length_take]
    omega
  have hle := topKBlocks_le cfg sparseRange
  obtain ⟨hchosen, hsub, hnumber⟩ := hretrieve ⟨query, freeSlots.take sparseRange, topK cfg sparseRange⟩
    (topKBlocks cfg sparseRange) (topK_natCast cfg sparseRange) (by
      show _ ≤ (freeSlots.take sparseRange).length
      rw [List.length_take]
      omega) (hfree.sublist (List.take_sublist _ _))
  have hretrieves : Retrieves cfg outside (topKTargets cfg sparseRange m') s m'
      ⟨query, freeSlots.take sparseRange, topK cfg sparseRange⟩ :=
    { places := by
        show Gsa.Blocks.slice m'.vllmBlockIds cfg.initWindowSz
          (cfg.initWindowSz + topK cfg (sparseRange : Nat)) = _
        rw [topK_natCast, ← Nat.cast_add, Gsa.Blocks.slice_natCast]
        rfl
      started := rfl
      slots := hsub
      length := hnumber.trans hlength.symm
      distinct := fun hs => nodup_retrievedHashes rfl rfl hfree hdistinct hsub hchosen }
  obtain ⟨hs, record, loads, -, hrun, hround, -, -⟩ :=
    hsettled.round hslotsHashed htargets hretrieves orders
  have hperm := hround.perm_of_nil htargets
  refine ⟨waitTransferTaskDone outside (startLoad s record loads), ?_, ?_⟩
  · have hone : 1 % cfg.retrievalStride = 1 := Nat.mod_eq_of_lt hstride
    show (if 1 % cfg.retrievalStride = 1 then
      (restoreAndLoad cfg outside (filled cfg isMla second hashes m sparseRange freeSlots).forgotten m'
        query orders).bind fun s =>
          some (if 0 < s.tasks.length then waitTransferTaskDone outside s else s) else some _) = _
    rw [if_pos hone, restoreAndLoad_eq outside isMla second hashes freeSlots query orders hlocal
      (by omega), hrun, Option.bind_some, wait_if_tasks outside record loads rfl rfl]
  · rw [waitTransferTaskDone_startLoad outside record loads rfl rfl]
    refine ⟨?_, fun cache hcache id hid => ?_⟩
    · show ((if loads = [] then [] else [] ++ [loads]).flatten.map Prod.fst).Perm _
      split_ifs with hloads
      · rwa [hloads] at hperm
      · rw [List.nil_append, List.flatten_singleton]
        exact hperm
    · have hnot : id ∉ loads.map Prod.fst := fun hmem => hid (hperm.subset hmem)
      rcases List.mem_cons.mp hcache with rfl | hcache
      · exact writeAll_of_notMem hnot
      · obtain ⟨v, hv, rfl⟩ := Option.map_eq_some_iff.mp (Option.mem_toList.mp hcache)
        rw [writeAll_of_notMem hnot]
        change (if second then some (restored cfg sparseRange m m') else none) = some v at hv
        split_ifs at hv
        obtain rfl := Option.some.inj hv
        rfl

/-! ## The blocks of the new table -/

theorem restored_init (hnodup : m.vllmBlockIds.Nodup) (hnodup' : m'.vllmBlockIds.Nodup)
    (hlocal : 0 < savedLocal cfg sparseRange m)
    (hfits : cfg.initWindowSz + savedLocal cfg sparseRange m ≤ m'.vllmBlockIds.length) {i id : Nat}
    (hi : i < cfg.initWindowSz) (hid : m'.vllmBlockIds[i]? = some id) :
    restored cfg sparseRange m m' id = some i := by
  have hsaved : savedLocal cfg sparseRange m =
    m.vllmBlockIds.length - (cfg.initWindowSz + sparseRange) := rfl
  obtain ⟨hlt, rfl⟩ := List.getElem?_eq_some_iff.mp hid
  have hnot : m'.vllmBlockIds[i] ∉
      m'.vllmBlockIds.drop (m'.vllmBlockIds.length - savedLocal cfg sparseRange m) := by
    intro hmem
    obtain ⟨j, hj, heq⟩ := List.mem_drop_iff_getElem.mp hmem
    have := hnodup'.getElem_inj_iff.mp heq
    omega
  have htake : (m'.vllmBlockIds.take cfg.initWindowSz)[i]? = some m'.vllmBlockIds[i] := by
    rw [List.getElem?_take_of_lt hi, hid]
  have hwritten : some (writeAll (fun _ => none) (m'.vllmBlockIds.take cfg.initWindowSz)
      ((m.vllmBlockIds.take cfg.initWindowSz).map (promptBlock m.vllmBlockIds)) m'.vllmBlockIds[i]) =
      ((m.vllmBlockIds.take cfg.initWindowSz).map (promptBlock m.vllmBlockIds))[i]? := by
    refine writeAll_getElem? (hnodup'.sublist (List.take_sublist _ _)) ?_ htake
    rw [List.length_map, List.length_take, List.length_take]
    omega
  rw [List.getElem?_map, List.getElem?_take_of_lt hi, List.getElem?_eq_getElem (by omega),
    Option.map_some, promptBlock, idxOf?_getElem hnodup] at hwritten
  unfold restored
  rw [writeAll_of_notMem hnot]
  exact Option.some.inj hwritten

theorem restored_last (hnodup : m.vllmBlockIds.Nodup) (hnodup' : m'.vllmBlockIds.Nodup)
    (hfits : savedLocal cfg sparseRange m ≤ m'.vllmBlockIds.length) {i id : Nat}
    (hi : i < savedLocal cfg sparseRange m)
    (hid : m'.vllmBlockIds[m'.vllmBlockIds.length - savedLocal cfg sparseRange m + i]? = some id) :
    restored cfg sparseRange m m' id = some (cfg.initWindowSz + sparseRange + i) := by
  have hsaved : savedLocal cfg sparseRange m =
    m.vllmBlockIds.length - (cfg.initWindowSz + sparseRange) := rfl
  rw [← List.getElem?_drop] at hid
  have hwritten : some (restored cfg sparseRange m m' id) =
      ((m.vllmBlockIds.drop (cfg.initWindowSz + sparseRange)).map (promptBlock m.vllmBlockIds))[i]? := by
    refine writeAll_getElem? (hnodup'.sublist (List.drop_sublist _ _)) ?_ hid
    rw [List.length_map, List.length_drop, List.length_drop]
    omega
  rw [List.getElem?_map, List.getElem?_drop, List.getElem?_eq_getElem (by omega), Option.map_some,
    promptBlock, idxOf?_getElem hnodup] at hwritten
  exact Option.some.inj hwritten

theorem restored_between (hnodup' : m'.vllmBlockIds.Nodup) {i id : Nat} (hi : cfg.initWindowSz ≤ i)
    (hlast : i + savedLocal cfg sparseRange m < m'.vllmBlockIds.length)
    (hid : m'.vllmBlockIds[i]? = some id) : restored cfg sparseRange m m' id = none := by
  obtain ⟨hlt, rfl⟩ := List.getElem?_eq_some_iff.mp hid
  have hdrop : m'.vllmBlockIds[i] ∉
      m'.vllmBlockIds.drop (m'.vllmBlockIds.length - savedLocal cfg sparseRange m) := by
    intro hmem
    obtain ⟨j, hj, heq⟩ := List.mem_drop_iff_getElem.mp hmem
    have := hnodup'.getElem_inj_iff.mp heq
    omega
  have htake : m'.vllmBlockIds[i] ∉ m'.vllmBlockIds.take cfg.initWindowSz := by
    intro hmem
    obtain ⟨j, hj, heq⟩ := List.mem_take_iff_getElem.mp hmem
    have := hnodup'.getElem_inj_iff.mp heq
    omega
  unfold restored
  rw [writeAll_of_notMem hdrop, writeAll_of_notMem htake]

theorem notMem_topKTargets (hnodup' : m'.vllmBlockIds.Nodup) {i id : Nat}
    (hi : i < cfg.initWindowSz ∨ cfg.initWindowSz + topKBlocks cfg sparseRange ≤ i)
    (hid : m'.vllmBlockIds[i]? = some id) : id ∉ topKTargets cfg sparseRange m' := by
  obtain ⟨hlt, rfl⟩ := List.getElem?_eq_some_iff.mp hid
  intro hmem
  obtain ⟨j, hj, heq⟩ := List.mem_drop_iff_getElem.mp hmem
  rw [List.length_take] at hj
  rw [List.getElem_take] at heq
  have := hnodup'.getElem_inj_iff.mp heq
  omega

theorem length_allocateSlots {r : Request} {numSlots rest : Nat} {allocated new table' : List Nat}
    (hlayout : Layout cfg sparseRange m.numTokens numSlots rest)
    (houtput : r.numOutputTokens = m.numOutputTokens + 1)
    (hpreempt : r.preemptOutputTokens.getD 0 = m.numOutputTokens)
    (halloc : allocateSlots cfg r numSlots allocated new = some table') :
    table'.length =
      cfg.initWindowSz + topKBlocks cfg sparseRange + rest / cfg.blockSize + 1 := by
  have hone : r.outputTokens = 1 := by
    unfold Request.outputTokens
    rw [houtput, hpreempt]
    omega
  unfold allocateSlots at halloc
  rw [if_pos hone] at halloc
  dsimp only at halloc
  split_ifs at halloc with hlength
  obtain rfl := Option.some.inj halloc
  rw [List.nil_append, hlength, List.length_nil, Nat.sub_zero, hlayout.slots, Nat.add_assoc,
    Pages.mul_add_ceilDiv cfg.blockSize_pos, Pages.succ_ceilDiv cfg.blockSize_pos]
  rfl

/-- The numbers of blocks at the first decode step. -/
structure Sized (cfg : Config) (m m' : ReqMeta η) (sparseRange rest : Nat) : Prop where
  old : m.vllmBlockIds.Nodup
  new : m'.vllmBlockIds.Nodup
  saved : savedLocal cfg sparseRange m =
    rest / cfg.blockSize + if cfg.blockSize ∣ rest then 0 else 1
  pos : 0 < savedLocal cfg sparseRange m
  length : m'.vllmBlockIds.length =
    cfg.initWindowSz + topKBlocks cfg sparseRange + rest / cfg.blockSize + 1

theorem Sized.fits {rest : Nat} (h : Sized cfg m m' sparseRange rest) :
    cfg.initWindowSz + topKBlocks cfg sparseRange + savedLocal cfg sparseRange m ≤
      m'.vllmBlockIds.length := by
  have hlength := h.length
  have hsaved := h.saved
  split_ifs at hsaved <;> omega

theorem windowsRestored_of_not_dvd {numSlots rest : Nat} {s' : State Q η (Option Nat)}
    (hlayout : Layout cfg sparseRange m.numTokens numSlots rest)
    (h : Sized cfg m m' sparseRange rest) (hdvd : ¬ cfg.blockSize ∣ rest)
    (hperm : (s'.launched.flatten.map Prod.fst).Perm (topKTargets cfg sparseRange m'))
    (hcaches : ∀ cache ∈ s'.caches, ∀ id ∉ topKTargets cfg sparseRange m',
      cache id = restored cfg sparseRange m m' id) :
    WindowsRestored cfg m m' sparseRange numSlots s' := by
  have hsaved := h.saved
  rw [if_neg hdvd] at hsaved
  have hlength := h.length
  have hfits := h.fits
  have hslots : numSlots - 1 =
      (cfg.initWindowSz + topKBlocks cfg sparseRange) * cfg.blockSize + rest := by
    rw [hlayout.slots, Nat.add_sub_cancel]
  have hloc : ∀ cache ∈ s'.caches, ∀ i < savedLocal cfg sparseRange m, ∀ id,
      m'.vllmBlockIds[cfg.initWindowSz + topKBlocks cfg sparseRange + i]? = some id →
      cache id = some (cfg.initWindowSz + sparseRange + i) := by
    intro cache hcache i hi id hid
    rw [hcaches cache hcache id (notMem_topKTargets h.new (.inr (by omega)) hid)]
    refine restored_last h.old h.new (by omega) hi ?_
    rwa [show m'.vllmBlockIds.length - savedLocal cfg sparseRange m =
      cfg.initWindowSz + topKBlocks cfg sparseRange by omega]
  exact
    { fits := hfits
      init := fun cache hcache i hi id hid => by
        rw [hcaches cache hcache id (notMem_topKTargets h.new (.inl hi) hid)]
        exact restored_init h.old h.new h.pos (by omega) hi hid
      loc := hloc
      loads := hperm
      apart := by
        refine ((hperm.append_left _).append_right _).nodup_iff.mpr ?_
        have hinit : m'.vllmBlockIds.take cfg.initWindowSz ++ topKTargets cfg sparseRange m' =
            m'.vllmBlockIds.take (cfg.initWindowSz + topKBlocks cfg sparseRange) := by
          rw [List.take_add, topKTargets, List.take_add, List.drop_left']
          rw [List.length_take]
          omega
        rw [hinit, ← List.take_add]
        exact h.new.sublist (List.take_sublist _ _)
      cover := by
        rw [hslots, Pages.mul_add_ceilDiv cfg.blockSize_pos, Pages.ceilDiv_eq cfg.blockSize_pos,
          h.saved]
      newToken := by
        have hindex : (numSlots - 1) / cfg.blockSize =
            cfg.initWindowSz + topKBlocks cfg sparseRange + rest / cfg.blockSize := by
          rw [hslots, Nat.add_comm, Nat.add_mul_div_right _ _ cfg.blockSize_pos, Nat.add_comm]
        obtain ⟨id, hid⟩ : ∃ id, m'.vllmBlockIds[cfg.initWindowSz + topKBlocks cfg sparseRange +
            rest / cfg.blockSize]? = some id :=
          ⟨_, List.getElem?_eq_getElem (by omega)⟩
        refine ⟨id, by rw [hindex, hid], fun cache hcache i hi => ?_⟩
        have hblock := hloc cache hcache (rest / cfg.blockSize) (by omega) id hid
        obtain rfl := Option.some.inj (hblock.symm.trans hi)
        rw [hslots, Nat.add_comm _ rest, Nat.add_mul_mod_self_right, hlayout.tokens]
        have hrest := Nat.div_add_mod' rest cfg.blockSize
        refine Nat.le_of_eq ?_
        calc (cfg.initWindowSz + sparseRange) * cfg.blockSize + rest
            = (cfg.initWindowSz + sparseRange) * cfg.blockSize +
                (rest / cfg.blockSize * cfg.blockSize + rest % cfg.blockSize) := by rw [hrest]
          _ = (cfg.initWindowSz + sparseRange + rest / cfg.blockSize) * cfg.blockSize +
                rest % cfg.blockSize := by ring }

theorem not_windowsRestored_of_dvd {numSlots rest : Nat} {s' : State Q η (Option Nat)}
    (h : Sized cfg m m' sparseRange rest) (hdvd : cfg.blockSize ∣ rest)
    (hcaches : ∀ cache ∈ s'.caches, ∀ id ∉ topKTargets cfg sparseRange m',
      cache id = restored cfg sparseRange m m' id) :
    ¬ WindowsRestored cfg m m' sparseRange numSlots s' := by
  intro hrestored
  have hsaved := h.saved
  rw [if_pos hdvd, Nat.add_zero] at hsaved
  have hlength := h.length
  have hlt : cfg.initWindowSz + topKBlocks cfg sparseRange + 0 < m'.vllmBlockIds.length := by omega
  have hid := List.getElem?_eq_getElem hlt
  have hmem : s'.kCache ∈ s'.caches := List.mem_cons_self
  have hwanted := hrestored.loc _ hmem 0 h.pos _ hid
  rw [hcaches _ hmem _ (notMem_topKTargets h.new (.inr (by omega)) hid),
    restored_between h.new (by omega) (by omega) hid] at hwanted
  cases hwanted

theorem not_windowsRestored_forgotten {numSlots rest : Nat} {s : State Q η (Option Nat)}
    (h : Sized cfg m m' sparseRange rest) :
    ¬ WindowsRestored cfg m m' sparseRange numSlots s.forgotten := by
  intro hrestored
  have hfits := h.fits
  have hpos := h.pos
  have hlt : cfg.initWindowSz + topKBlocks cfg sparseRange + 0 < m'.vllmBlockIds.length := by omega
  have hwanted := hrestored.loc _ List.mem_cons_self 0 hpos _ (List.getElem?_eq_getElem hlt)
  cases hwanted

theorem attentionBegin_stride_one [DecidableEq η] {outside : Outside Q η (Option Nat)}
    {isMla second : Bool} {freeSlots : List Nat} {query : Q} {orders : SetOrders η}
    (hstride : ¬ 2 ≤ cfg.retrievalStride) :
    attentionBegin cfg outside (filled cfg isMla second hashes m sparseRange freeSlots).forgotten m' query
        orders =
      some (filled cfg isMla second hashes m sparseRange freeSlots).forgotten := by
  have hone : cfg.retrievalStride = 1 := by
    have := cfg.retrievalStride_pos
    omega
  refine if_neg ?_
  show ¬ 1 % cfg.retrievalStride = 1
  rw [hone]
  exact Nat.zero_ne_one

/-- A prefill with this table, and the first decode step with the table that the scheduler makes for it.
The prompt may have output tokens of before a preemption behind it. -/
structure FirstDecode (cfg : Config) (outside : Outside Q η (Option Nat)) (freeSlots : List Nat)
    (hashes : List η) (ms : List (ReqMeta η × Q)) (m m' : ReqMeta η) (r : Request)
    (sparseRange numSlots : Nat) (allocated new : List Nat) : Prop where
  prefills : Prefills hashes ms m
  range : Sparse.getSparseRange cfg.initWindowSz cfg.localWindowSz m.numPromptTokens cfg.blockSize =
    sparseRange
  hashed : hashes.length = sparseRange
  distinct : hashes.Nodup
  table : m.vllmBlockIds.length = m.numTokens ⌈/⌉ cfg.blockSize
  nodup : m.vllmBlockIds.Nodup
  free : freeSlots.Nodup
  slots : sparseRange ≤ freeSlots.length
  prompt : r.numPromptTokens = m.numPromptTokens
  output : r.numOutputTokens = m.numOutputTokens + 1
  preempted : r.preemptOutputTokens.getD 0 = m.numOutputTokens
  estimate : estimateNumSlotsSparsed cfg r = some (numSlots : Int)
  alloc : allocateSlots cfg r numSlots allocated new = some m'.vllmBlockIds
  nodup' : m'.vllmBlockIds.Nodup
  retrieve : RetrieveOk outside

/-- The prefill and the first decode step run, and the windows are in the right blocks. The blocks have
been freed in between. -/
def Restores [DecidableEq η] (cfg : Config) (outside : Outside Q η (Option Nat))
    (orders orders' : SetOrders η) (freeSlots : List Nat) (isMla second : Bool)
    (ms : List (ReqMeta η × Q)) (m m' : ReqMeta η) (query query' : Q) (sparseRange numSlots : Nat) :
    Prop :=
  ∃ s s', prefill cfg outside orders freeSlots (State.new isMla (promptBlock m.vllmBlockIds)
      (if second then some (promptBlock m.vllmBlockIds) else none)) (ms ++ [(m, query)]) = some s ∧
    attentionBegin cfg outside s.forgotten m' query' orders' = some s' ∧
    WindowsRestored cfg m m' sparseRange numSlots s'

section FirstDecode

variable {outside : Outside Q η (Option Nat)} {orders orders' : SetOrders η} {freeSlots : List Nat}
  {isMla second : Bool} {ms : List (ReqMeta η × Q)} {query query' : Q} {r : Request} {numSlots : Nat}
  {allocated new : List Nat}

theorem FirstDecode.sized (hlocal : 1 ≤ cfg.localWindowSz)
    (h : FirstDecode cfg outside freeSlots hashes ms m m' r sparseRange numSlots allocated new) :
    ∃ rest, Layout cfg sparseRange m.numTokens numSlots rest ∧ Sized cfg m m' sparseRange rest ∧
      (cfg.blockSize ∣ m.numTokens ↔ cfg.blockSize ∣ rest) := by
  obtain ⟨rest, hlayout⟩ := layout_of_estimate hlocal h.range h.prompt h.output h.estimate
  have hsaved : savedLocal cfg sparseRange m = rest ⌈/⌉ cfg.blockSize := by
    unfold savedLocal
    rw [h.table, hlayout.tokens, Pages.mul_add_ceilDiv cfg.blockSize_pos, Nat.add_sub_cancel_left]
  refine ⟨rest, hlayout, ?_, ?_⟩
  · exact
      { old := h.nodup
        new := h.nodup'
        saved := hsaved.trans (Pages.ceilDiv_eq cfg.blockSize_pos rest)
        pos := by
          rw [hsaved, ← not_le, ceilDiv_le_iff_le_mul cfg.blockSize_pos, Nat.mul_zero, not_le]
          exact hlayout.rest_pos
        length := length_allocateSlots hlayout h.output h.preempted h.alloc }
  · rw [hlayout.tokens]
    exact Nat.dvd_add_right (Nat.dvd_mul_left _ _)

theorem FirstDecode.prefill_eq [DecidableEq η] {rest : Nat} (hsized : Sized cfg m m' sparseRange rest)
    (h : FirstDecode cfg outside freeSlots hashes ms m m' r sparseRange numSlots allocated new) :
    prefill cfg outside orders freeSlots (State.new isMla (promptBlock m.vllmBlockIds)
        (if second then some (promptBlock m.vllmBlockIds) else none)) (ms ++ [(m, query)]) =
      if sparseRange = 0 then none
      else some (filled cfg isMla second hashes m sparseRange freeSlots) := by
  have hdump : (m.vllmBlockIds.take (cfg.initWindowSz + sparseRange)).drop cfg.initWindowSz = [] ↔
      sparseRange = 0 := by
    have hpos := hsized.pos
    unfold savedLocal at hpos
    rw [← List.length_eq_zero_iff, List.length_drop, List.length_take]
    omega
  rw [Esa.prefill_eq outside orders query h.prefills rfl (fun h => absurd h Bool.false_ne_true) rfl rfl
    h.range h.free]
  refine ite_congr (propext ?_) (fun _ => rfl) fun _ => rfl
  rw [hdump]
  exact or_iff_left (Nat.not_lt.mpr h.slots)

theorem not_restores_of_dvd [DecidableEq η] (hlocal : 1 ≤ cfg.localWindowSz)
    (h : FirstDecode cfg outside freeSlots hashes ms m m' r sparseRange numSlots allocated new)
    (hdvd : cfg.blockSize ∣ m.numTokens) :
    ¬ Restores cfg outside orders orders' freeSlots isMla second ms m m' query query' sparseRange
      numSlots := by
  obtain ⟨rest, -, hsized, hiff⟩ := h.sized hlocal
  rintro ⟨s, s', hs, hs', hrestored⟩
  rw [h.prefill_eq hsized] at hs
  by_cases hzero : sparseRange = 0
  · rw [if_pos hzero] at hs
    cases hs
  rw [if_neg hzero] at hs
  obtain rfl := Option.some.inj hs
  by_cases hstride : 2 ≤ cfg.retrievalStride
  · obtain ⟨s₁, hs₁, -, hcaches⟩ := attentionBegin_first isMla second query' orders' hstride h.hashed
      h.distinct h.free h.slots h.retrieve h.nodup' hsized.pos hsized.fits
    obtain rfl := Option.some.inj (hs₁.symm.trans hs')
    exact not_windowsRestored_of_dvd hsized (hiff.mp hdvd) hcaches hrestored
  · obtain rfl := Option.some.inj ((attentionBegin_stride_one hstride).symm.trans hs')
    exact not_windowsRestored_forgotten hsized hrestored

/-- **When the windows go back to the right blocks**: the prompt ends inside a block, `attention_begin`
is there for the first decode step, and there is a block between the windows. -/
theorem restores_iff [DecidableEq η] (cfg : Config) (outside : Outside Q η (Option Nat))
    (orders orders' : SetOrders η) (freeSlots : List Nat) (isMla second : Bool) (hashes : List η)
    (ms : List (ReqMeta η × Q)) (m m' : ReqMeta η) (query query' : Q) (r : Request)
    (sparseRange numSlots : Nat) (allocated new : List Nat) (hlocal : 1 ≤ cfg.localWindowSz)
    (h : FirstDecode cfg outside freeSlots hashes ms m m' r sparseRange numSlots allocated new) :
    Restores cfg outside orders orders' freeSlots isMla second ms m m' query query' sparseRange
        numSlots ↔
      ¬ cfg.blockSize ∣ m.numTokens ∧ 2 ≤ cfg.retrievalStride ∧ 0 < sparseRange := by
  obtain ⟨rest, hlayout, hsized, hiff⟩ := h.sized hlocal
  constructor
  · intro hrestores
    refine ⟨fun hdvd => not_restores_of_dvd hlocal h hdvd hrestores, ?_⟩
    obtain ⟨s, s', hs, hs', hrestored⟩ := hrestores
    rw [h.prefill_eq hsized] at hs
    have hpos : sparseRange ≠ 0 := by
      intro hzero
      rw [if_pos hzero] at hs
      cases hs
    rw [if_neg hpos] at hs
    obtain rfl := Option.some.inj hs
    refine ⟨?_, Nat.pos_of_ne_zero hpos⟩
    by_contra hstride
    obtain rfl := Option.some.inj ((attentionBegin_stride_one hstride).symm.trans hs')
    exact not_windowsRestored_forgotten hsized hrestored
  · rintro ⟨hnot, hstride, hpos⟩
    obtain ⟨s', hs', hperm, hcaches⟩ := attentionBegin_first isMla second query' orders' hstride
      h.hashed h.distinct h.free h.slots h.retrieve h.nodup' hsized.pos hsized.fits
    refine ⟨_, s', (h.prefill_eq hsized).trans (if_neg hpos.ne'), hs', ?_⟩
    exact windowsRestored_of_not_dvd hlayout hsized (mt hiff.mpr hnot) hperm hcaches

end FirstDecode

/-- Blocks of two tokens. -/
def twoTokens : Config :=
  ⟨2, 1, 1, 1 / 2, 3, 1, Nat.two_pos, half_nonneg, half_le_one, stride_pos⟩

/-- The retrieval gives the first slots. -/
def firstSlots : Outside Unit Nat (Option Nat) :=
  ⟨fun _ => none, fun _ => none, fun _ => none, fun task => task.slots.take task.topk.toNat⟩

theorem firstSlots_retrieveOk : RetrieveOk firstSlots := by
  intro task k hk hle hnodup
  show (task.slots.take task.topk.toNat).Nodup ∧ task.slots.take task.topk.toNat ⊆ task.slots ∧
    (task.slots.take task.topk.toNat).length = k
  rw [hk, Int.toNat_natCast]
  exact ⟨hnodup.sublist (List.take_sublist _ _), List.take_subset _ _, List.length_take_of_le hle⟩

/-- The order of insertion. -/
def inOrder : SetOrders Nat := ⟨id, id, List.Perm.refl, List.Perm.refl⟩

/-- A prompt of seven tokens, in three blocks and a half. -/
theorem restores_iff_seven :
    Restores twoTokens firstSlots inOrder inOrder [7, 8, 9] false true [] ⟨7, 0, 7, 0, [1, 2, 3, 4], [10, 11]⟩
      ⟨7, 1, 1, 7, [5, 6, 7], [10, 11]⟩ () () 2 6 :=
  (restores_iff twoTokens firstSlots inOrder inOrder [7, 8, 9] false true [10, 11] []
    ⟨7, 0, 7, 0, [1, 2, 3, 4], [10, 11]⟩ ⟨7, 1, 1, 7, [5, 6, 7], [10, 11]⟩ () () ⟨7, 1, 7, none⟩ 2 6
    [1, 2, 3, 4] [5, 6, 7] (by decide)
    { prefills := ⟨fun c hc => absurd hc List.not_mem_nil, rfl, rfl⟩
      range := rfl
      hashed := rfl
      distinct := by decide
      table := rfl
      nodup := by decide
      free := by decide
      slots := by decide
      prompt := rfl
      output := rfl
      preempted := rfl
      estimate := by decide +kernel
      alloc := by decide
      nodup' := by decide
      retrieve := firstSlots_retrieveOk }).mpr ⟨by decide, by decide, by decide⟩

/-- A prompt of eight tokens, in four blocks: the last of them is put back one block too late. -/
theorem not_restores_eight :
    ¬ ∀ (cfg : Config) (outside : Outside Unit Nat (Option Nat)) (orders orders' : SetOrders Nat)
      (freeSlots : List Nat) (isMla second : Bool) (hashes : List Nat) (ms : List (ReqMeta Nat × Unit))
      (m m' : ReqMeta Nat) (query query' : Unit) (r : Request) (sparseRange numSlots : Nat)
      (allocated new : List Nat), 1 ≤ cfg.localWindowSz →
      FirstDecode cfg outside freeSlots hashes ms m m' r sparseRange numSlots allocated new →
      Restores cfg outside orders orders' freeSlots isMla second ms m m' query query' sparseRange
        numSlots := by
  intro hall
  have hdecode : FirstDecode twoTokens firstSlots [7, 8, 9] [10, 11] []
      ⟨8, 0, 8, 0, [1, 2, 3, 4], [10, 11]⟩ ⟨8, 1, 1, 8, [5, 6, 7, 8], [10, 11]⟩ ⟨8, 1, 8, none⟩ 2 7
      [1, 2, 3, 4] [5, 6, 7, 8] :=
    { prefills := ⟨fun c hc => absurd hc List.not_mem_nil, rfl, rfl⟩
      range := rfl
      hashed := rfl
      distinct := by decide
      table := rfl
      nodup := by decide
      free := by decide
      slots := by decide
      prompt := rfl
      output := rfl
      preempted := rfl
      estimate := by decide +kernel
      alloc := by decide
      nodup' := by decide
      retrieve := firstSlots_retrieveOk }
  exact not_restores_of_dvd (by decide) hdecode (by decide) (hall twoTokens firstSlots inOrder inOrder
    [7, 8, 9] false true [10, 11] [] _ _ () () _ 2 7 [1, 2, 3, 4] [5, 6, 7, 8] (by decide) hdecode)

end UnifiedCache.Esa
