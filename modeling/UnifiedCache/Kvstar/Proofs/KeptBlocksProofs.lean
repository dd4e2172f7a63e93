import UnifiedCache.Kvstar.Proofs.WindowProofs

/-!
# What is kept of the prompt at the first decode step

The table of the first decode step is the end of the old one, with a new block if nothing is dropped. The
windows go back to its two ends, and the new token gets the next slot. Whether that slot is free depends
on the length of the prompt.
-/

open Lib Lib.BlockCache

namespace UnifiedCache.Kvstar

variable {Q η β : Type} {cfg : Config} {outside : Outside Q η β} {prompt : Prompt η}
  {queryOf : Nat → Q} {m : ReqMeta η} {table table' : List Nat}

/-! ## Restoring the windows -/

/-- `attention_begin` of the first decode step, as far as the windows are concerned. -/
def restoreWindows (cfg : Config) (s : State Q η β) (m : ReqMeta η) : Option (State Q η β) :=
  if s.blkRepre.isNone then some s else prepareInitAndLocalWindow cfg s m

/-- The blocks that the windows are written to. -/
def windowTargets (cfg : Config) (s : State Q η β) (table : List Nat) : List Nat :=
  table.take cfg.initWindowSz ++
    if s.localWindow.isSome then lastItems cfg.localWindowSz table else []

/-- What is written there. -/
def windowContents (s : State Q η β) (tensor : List β × List β → List β) : List β :=
  (s.initWindow.map tensor).getD [] ++ (s.localWindow.map tensor).getD []

/-- The shapes match: what has been put aside has as many blocks as it is written to. -/
structure ShapesMatch (cfg : Config) (s : State Q η β) (table : List Nat) : Prop where
  init : ∃ w, s.initWindow = some w ∧ w.1.length = (table.take cfg.initWindowSz).length ∧
    w.2.length = (table.take cfg.initWindowSz).length
  loc : ∀ w, s.localWindow = some w → w.1.length = (lastItems cfg.localWindowSz table).length ∧
    w.2.length = (lastItems cfg.localWindowSz table).length

theorem prepareInitAndLocalWindow_eq {s : State Q η β}
    (h : ShapesMatch cfg s m.vllmBlockIds) :
    prepareInitAndLocalWindow cfg s m = some { s with
      kCache := writeAll s.kCache (windowTargets cfg s m.vllmBlockIds) (windowContents s Prod.fst)
      vCache := writeAll s.vCache (windowTargets cfg s m.vllmBlockIds) (windowContents s Prod.snd) } := by
  obtain ⟨w, hw, hk, hv⟩ := h.init
  unfold prepareInitAndLocalWindow windowTargets windowContents
  rw [hw]
  dsimp only [Option.bind_eq_bind, Option.bind_some]
  rw [indexPut_eq hk, Option.bind_some, indexPut_eq hv, Option.bind_some]
  cases hl : s.localWindow with
  | none =>
    rw [← hw, ← hl, if_neg (by rw [hl]; exact Bool.false_ne_true), List.append_nil, hw, hl]
    simp
  | some w' =>
    obtain ⟨hk', hv'⟩ := h.loc w' hl
    rw [if_pos (show (some w').isSome = true from rfl)]
    dsimp only
    rw [indexPut_eq hk', indexPut_eq hv', Option.bind_some, Option.bind_some,
      writeAll_append hk, writeAll_append hv]
    rfl

theorem length_windowContents {s : State Q η β} (h : ShapesMatch cfg s table)
    {tensor : List β × List β → List β} (htensor : tensor = Prod.fst ∨ tensor = Prod.snd) :
    (windowContents s tensor).length = (windowTargets cfg s table).length := by
  obtain ⟨w, hw, hk, hv⟩ := h.init
  unfold windowContents windowTargets
  rw [List.length_append, List.length_append, hw]
  cases hl : s.localWindow with
  | none =>
    rcases htensor with rfl | rfl
    · exact congrArg (· + 0) hk
    · exact congrArg (· + 0) hv
  | some w' =>
    obtain ⟨hk', hv'⟩ := h.loc w' hl
    rcases htensor with rfl | rfl
    · exact congrArg₂ (· + ·) hk hk'
    · exact congrArg₂ (· + ·) hv hv'

/-! ## What the blocks hold -/

/-- The block of the prompt that a block holds at the end of the prefill. -/
def promptBlock (table : List Nat) (id : Nat) : Option Nat := table.idxOf? id

/-- A slot holds a token of the prompt, where the cache holds these blocks of the prompt. -/
def HoldsPromptToken (cfg : Config) (prompt : Prompt η) (cache : Nat → Option Nat) (id offset : Nat) :
    Prop :=
  ∃ i, cache id = some i ∧ i * cfg.blockSize + offset < prompt.numPromptTokens

/-- The `ReqMeta` of the first decode step. -/
def firstMeta (prompt : Prompt η) (table' : List Nat) : ReqMeta η :=
  ⟨prompt.numPromptTokens, 1, 1, prompt.numPromptTokens, table', 0, 1, prompt.blockHashes⟩

/-- What should hold at the first decode step: the state after the prefill is `s`, that with the windows
restored is `s'`, and the tables are the one of the prefill and the one of the step. -/
structure KeepsApart (cfg : Config) (prompt : Prompt η) (table table' : List Nat)
    (s s' : State Q η (Option Nat)) : Prop where
  length : table'.length = estimateNumSlotsSparsed cfg prompt.numPromptTokens
    (prompt.numPromptTokens + 1) ⌈/⌉ cfg.blockSize
  /-- The last blocks of the old table are there in the same order. -/
  kept : ∃ new, table' = table.drop (table.length - table'.length) ++ new
  shapes : s.blkRepre.isSome → ShapesMatch cfg s table'
  /-- No block receives two of the blocks that have been put aside. -/
  apart : s.blkRepre.isSome → (windowTargets cfg s table').Nodup
  restored : s.blkRepre.isSome →
    (windowTargets cfg s table').map s'.kCache = windowContents s Prod.fst ∧
    (windowTargets cfg s table').map s'.vCache = windowContents s Prod.snd
  /-- A request whose windows are not restored still has all its blocks in place. -/
  inPlace : s.blkRepre = none → table <+: table'
  /-- No window is in the swap area. -/
  swapArea : ∀ candidates,
    getRetrieveCandidateBlockIds cfg s (firstMeta prompt table') = some candidates →
    ∀ id ∈ candidates, id ∉ windowTargets cfg s table'
  newToken : ∀ id,
    table'[(estimateNumSlotsSparsed cfg prompt.numPromptTokens (prompt.numPromptTokens + 1) - 1) /
      cfg.blockSize]? = some id →
    ¬ HoldsPromptToken cfg prompt s'.kCache id
      ((estimateNumSlotsSparsed cfg prompt.numPromptTokens (prompt.numPromptTokens + 1) - 1) %
        cfg.blockSize)

theorem newToken_slot (cfg : Config) (prompt : Prompt η) :
    (estimateNumSlotsSparsed cfg prompt.numPromptTokens (prompt.numPromptTokens + 1) - 1) /
        cfg.blockSize = savedFullyBlk cfg prompt + keepFixedBlk cfg prompt ∧
    (estimateNumSlotsSparsed cfg prompt.numPromptTokens (prompt.numPromptTokens + 1) - 1) %
        cfg.blockSize = prompt.numPromptTokens % cfg.blockSize := by
  have hpos := cfg.blockSize_pos
  have hsaved := savedFullyBlk_le cfg prompt
  have hfixed : keepFixedBlk cfg prompt ≤ fullyBlk cfg prompt := Nat.min_le_right _ _
  have hmod := Nat.mod_lt prompt.numPromptTokens hpos
  have hbudget : (prompt.numPromptTokens + 1) ⌈/⌉ cfg.blockSize -
      (fullyBlk cfg prompt - savedFullyBlk cfg prompt - keepFixedBlk cfg prompt) =
      savedFullyBlk cfg prompt + keepFixedBlk cfg prompt + 1 := by
    rw [succ_ceilDiv]
    omega
  have hslots : estimateNumSlotsSparsed cfg prompt.numPromptTokens (prompt.numPromptTokens + 1) =
      (savedFullyBlk cfg prompt + keepFixedBlk cfg prompt) * cfg.blockSize +
        prompt.numPromptTokens % cfg.blockSize + 1 := by
    show (if (prompt.numPromptTokens + 1) % cfg.blockSize ≠ 0 then
      ((prompt.numPromptTokens + 1) ⌈/⌉ cfg.blockSize - (fullyBlk cfg prompt -
        savedFullyBlk cfg prompt - keepFixedBlk cfg prompt) - 1) * cfg.blockSize +
          (prompt.numPromptTokens + 1) % cfg.blockSize
      else ((prompt.numPromptTokens + 1) ⌈/⌉ cfg.blockSize - (fullyBlk cfg prompt -
        savedFullyBlk cfg prompt - keepFixedBlk cfg prompt)) * cfg.blockSize) = _
    rw [hbudget]
    by_cases hend : prompt.numPromptTokens % cfg.blockSize + 1 = cfg.blockSize
    · rw [if_neg (not_not.mpr (succ_div_mod_of_eq hend).2), Nat.add_mul, Nat.one_mul]
      omega
    · have hsucc := (succ_div_mod_of_lt (show prompt.numPromptTokens % cfg.blockSize + 1 <
        cfg.blockSize by omega)).2
      rw [hsucc, if_pos (Nat.succ_ne_zero _), Nat.add_sub_cancel]
      omega
  rw [hslots, Nat.add_sub_cancel]
  refine ⟨?_, ?_⟩
  · rw [Nat.add_comm, Nat.add_mul_div_right _ _ hpos, Nat.div_eq_of_lt hmod, Nat.zero_add]
  · rw [Nat.add_comm, Nat.add_mul_mod_self_right, Nat.mod_mod]

/-! ## The last block of the table -/

theorem promptBlock_getElem (hnodup : table.Nodup) {i : Nat} (hi : i < table.length) :
    promptBlock table table[i] = some i := idxOf?_getElem hnodup hi

theorem map_promptBlock_getLast? (hnodup : table.Nodup) (hne : 0 < table.length) :
    table.getLast?.map (promptBlock table) = some (some (table.length - 1)) := by
  rw [List.getLast?_eq_getElem?, List.getElem?_eq_getElem (by omega), Option.map_some,
    promptBlock_getElem hnodup]

theorem getLast?_lastItems {α : Type} {n : Nat} {l : List α} (hn : 0 < n) :
    (lastItems n l).getLast? = l.getLast? := by
  unfold lastItems
  rw [if_neg (by omega), List.getLast?_drop]
  split_ifs with hlength
  · have : l.length = 0 := by omega
    rw [List.length_eq_zero_iff.mp this]
    rfl
  · rfl

theorem getLast?_of_le {new : List Nat} (hle : table'.length ≤ table.length) (hpos : 0 < table'.length)
    (h : table' = table.drop (table.length - table'.length) ++ new) :
    table'.getLast? = table.getLast? := by
  have hnew : new.length = 0 := by
    have := congrArg List.length h
    rw [List.length_append, List.length_drop] at this
    omega
  rw [List.length_eq_zero_iff.mp hnew, List.append_nil] at h
  rw [h, List.getLast?_drop, if_neg (by omega)]

theorem eq_concat_of_lt {new : List Nat} (hlength : table'.length = table.length + 1)
    (hnodup : table'.Nodup) (h : table' = table.drop (table.length - table'.length) ++ new) :
    ∃ x, x ∉ table ∧ table' = table ++ [x] := by
  rw [show table.length - table'.length = 0 by omega, List.drop_zero] at h
  have hnew : new.length = 1 := by
    have := congrArg List.length h
    rw [List.length_append] at this
    omega
  obtain ⟨x, rfl⟩ := List.length_eq_one_iff.mp hnew
  refine ⟨x, fun hmem => ?_, h⟩
  rw [h] at hnodup
  exact (List.nodup_append.mp hnodup).2.2 x hmem x (List.mem_singleton_self x) rfl

/-! ## The windows of a request -/

theorem shapesMatch_prefilled_iff {c : Nat} {s : State Q η β} (hloc : s.localWindow = none)
    (hlocal : 1 ≤ cfg.localWindowSz) :
    ShapesMatch cfg (prefilled cfg prompt queryOf s c table) table' ↔
      min cfg.initWindowSz table.length = min cfg.initWindowSz table'.length ∧
      (savedLocal cfg table = 0 ∨
        savedLocal cfg table = min cfg.localWindowSz table'.length) := by
  have hinit : (prefilled cfg prompt queryOf s c table).initWindow = _ := prefilled_initWindow
  have hwindow : (prefilled cfg prompt queryOf s c table).localWindow = _ :=
    prefilled_localWindow hloc
  have hlast : 0 < savedLocal cfg table →
      (lastItems (savedLocal cfg table) table).length = savedLocal cfg table := by
    intro hpos
    rw [length_lastItems _ hpos, savedLocal]
    omega
  constructor
  · rintro ⟨⟨w, hw, hlength, -⟩, h⟩
    obtain rfl := Option.some.inj (hinit.symm.trans hw)
    rw [List.length_map, List.length_take, List.length_take] at hlength
    refine ⟨hlength, ?_⟩
    by_cases hpos : 0 < savedLocal cfg table
    · rw [if_pos hpos] at hwindow
      have hlength' := (h _ hwindow).1
      rw [List.length_map, hlast hpos, length_lastItems _ hlocal] at hlength'
      exact .inr hlength'
    · exact .inl (Nat.eq_zero_of_not_pos hpos)
  · rintro ⟨hlength, hcases⟩
    refine ⟨⟨_, hinit, ?_, ?_⟩, fun w hw => ?_⟩
    · rw [List.length_map, List.length_take, List.length_take, hlength]
    · rw [List.length_map, List.length_take, List.length_take, hlength]
    · by_cases hpos : 0 < savedLocal cfg table
      · rw [if_pos hpos] at hwindow
        obtain rfl := Option.some.inj (hwindow.symm.trans hw)
        have hsize := hcases.resolve_left (by omega)
        constructor
        · rw [List.length_map, hlast hpos, length_lastItems _ hlocal, hsize]
        · rw [List.length_map, hlast hpos, length_lastItems _ hlocal, hsize]
      · rw [if_neg hpos] at hwindow
        cases hwindow.symm.trans hw

theorem nodup_take_append_lastItems {a b : Nat} (hnodup : table.Nodup) (hb : 0 < b)
    (h : a + b ≤ table.length) : (table.take a ++ lastItems b table).Nodup := by
  unfold lastItems
  rw [if_neg (by omega)]
  exact nodup_take_append_drop hnodup (by omega)

theorem kCache_prefilled {c : Nat} {s : State Q η β} :
    (prefilled cfg prompt queryOf s c table).kCache = s.kCache := by
  unfold prefilled
  rw [foldl_putQuery_eq]
  rfl

theorem last_restored {c : Nat} {s : State Q η (Option Nat)} {cache : Nat → Option Nat}
    (hnodup : table.Nodup) (hpos : 0 < table.length)
    (hloc : s.localWindow = none) (hlocal : 1 ≤ cfg.localWindowSz)
    (hcache : s.kCache = promptBlock table)
    (hends : 0 < savedLocal cfg table ∨
      (table.length ≤ cfg.initWindowSz ∧ table'.length ≤ cfg.initWindowSz))
    (hmap : (windowTargets cfg (prefilled cfg prompt queryOf s c table) table').map cache =
      windowContents (prefilled cfg prompt queryOf s c table) Prod.fst) {id : Nat}
    (hid : table'.getLast? = some id) : cache id = some (table.length - 1) := by
  have hlast := map_promptBlock_getLast? hnodup hpos
  have hwindow : (prefilled cfg prompt queryOf s c table).localWindow = _ :=
    prefilled_localWindow hloc
  have heq := congrArg List.getLast? hmap
  unfold windowTargets windowContents at heq
  rw [prefilled_initWindow, hwindow, hcache, List.getLast?_map] at heq
  by_cases hsaved : 0 < savedLocal cfg table
  · rw [if_pos hsaved, Option.isSome_some, if_pos rfl, List.getLast?_append,
      getLast?_lastItems hlocal, hid] at heq
    change some (cache id) =
      (_ ++ (lastItems (savedLocal cfg table) table).map (promptBlock table)).getLast? at heq
    rw [List.getLast?_append, List.getLast?_map, getLast?_lastItems hsaved, hlast] at heq
    exact Option.some.inj heq
  · obtain ⟨hinit, hinit'⟩ := hends.resolve_left hsaved
    rw [if_neg hsaved, Option.isSome_none, if_neg Bool.false_ne_true, List.append_nil,
      List.take_of_length_le hinit', hid] at heq
    change some (cache id) =
      ((table.take cfg.initWindowSz).map (promptBlock table) ++ []).getLast? at heq
    rw [List.append_nil, List.take_of_length_le hinit, List.getLast?_map, hlast] at heq
    exact Option.some.inj heq

/-- The lengths of the two tables. -/
structure Lengths (cfg : Config) (prompt : Prompt η) (table table' : List Nat) : Prop where
  old : table.length = fullyBlk cfg prompt + if cfg.blockSize ∣ prompt.numPromptTokens then 0 else 1
  new : table'.length = savedFullyBlk cfg prompt + keepFixedBlk cfg prompt + 1

theorem holdsPromptToken_last_iff {cache : Nat → Option Nat} {id : Nat}
    (hlengths : Lengths cfg prompt table table') (hfull : 0 < fullyBlk cfg prompt)
    (hid : cache id = some (table.length - 1)) :
    HoldsPromptToken cfg prompt cache id (prompt.numPromptTokens % cfg.blockSize) ↔
      cfg.blockSize ∣ prompt.numPromptTokens := by
  have hpos := cfg.blockSize_pos
  have hdiv := Nat.div_add_mod' prompt.numPromptTokens cfg.blockSize
  change fullyBlk cfg prompt * _ + _ = _ at hdiv
  have hold := hlengths.old
  constructor
  · rintro ⟨i, hi, hlt⟩
    obtain rfl := Option.some.inj (hid.symm.trans hi)
    by_contra hdvd
    rw [if_neg hdvd] at hold
    rw [hold, Nat.add_sub_cancel] at hlt
    omega
  · intro hdvd
    rw [if_pos hdvd, Nat.add_zero] at hold
    refine ⟨_, hid, ?_⟩
    rw [hold, Nat.mod_eq_zero_of_dvd hdvd, Nat.sub_mul, Nat.one_mul]
    have := Nat.le_mul_of_pos_left cfg.blockSize hfull
    omega

theorem not_holdsPromptToken_of_notMem {id offset : Nat} (h : id ∉ table) :
    ¬ HoldsPromptToken cfg prompt (promptBlock table) id offset := by
  rintro ⟨i, hi, -⟩
  rw [promptBlock, List.idxOf?_eq_none_iff.mpr h] at hi
  cases hi

/-- When the windows go to places of their own and the new token to a free slot. -/
def WindowsKept (cfg : Config) (prompt : Prompt η) (table : List Nat) : Prop :=
  (¬ cfg.blockSize ∣ prompt.numPromptTokens ∧
    (cfg.initWindowSz + cfg.localWindowSz ≤ table.length ∨ table.length ≤ cfg.initWindowSz)) ∨
  (cfg.blockSize ∣ prompt.numPromptTokens ∧ cfg.initWindowSz = table.length)

/-! ## When the prompt is kept -/

section Prompt

variable {new : List Nat} {c : Nat} {s s' : State Q η (Option Nat)}

/-- The tables of a request. -/
structure Tables (cfg : Config) (prompt : Prompt η) (table table' new : List Nat) : Prop where
  long : cfg.blockSize < prompt.numPromptTokens
  lengths : Lengths cfg prompt table table'
  nodup : table.Nodup
  nodup' : table'.Nodup
  kept : table' = table.drop (table.length - table'.length) ++ new
  slots : table'.length = estimateNumSlotsSparsed cfg prompt.numPromptTokens
    (prompt.numPromptTokens + 1) ⌈/⌉ cfg.blockSize

theorem Tables.fullyBlk_pos (h : Tables cfg prompt table table' new) : 0 < fullyBlk cfg prompt :=
  Nat.div_pos h.long.le cfg.blockSize_pos

theorem Tables.length_pos (h : Tables cfg prompt table table' new) : 0 < table.length := by
  have := h.fullyBlk_pos
  have := h.lengths.old
  omega

theorem Tables.newToken_iff (h : Tables cfg prompt table table' new)
    {P : Nat → Nat → Prop} :
    (∀ id, table'[(estimateNumSlotsSparsed cfg prompt.numPromptTokens
        (prompt.numPromptTokens + 1) - 1) / cfg.blockSize]? = some id →
      P id ((estimateNumSlotsSparsed cfg prompt.numPromptTokens
        (prompt.numPromptTokens + 1) - 1) % cfg.blockSize)) ↔
    ∀ id, table'.getLast? = some id → P id (prompt.numPromptTokens % cfg.blockSize) := by
  obtain ⟨hdiv, hmod⟩ := newToken_slot cfg prompt
  rw [hdiv, hmod, List.getLast?_eq_getElem?, h.lengths.new, Nat.add_sub_cancel]

theorem Tables.exists_last (h : Tables cfg prompt table table' new) :
    ∃ id, table'.getLast? = some id := by
  rw [List.getLast?_eq_getElem?, h.lengths.new, Nat.add_sub_cancel]
  exact ⟨_, List.getElem?_eq_getElem (by rw [h.lengths.new]; omega)⟩

theorem KeepsApart.windowsKept (h : Tables cfg prompt table table' new)
    (hinit : 1 ≤ cfg.initWindowSz) (hlocal : 1 ≤ cfg.localWindowSz) (hloc : s.localWindow = none)
    (hcache : s.kCache = promptBlock table) (hrepre : HasRepre cfg prompt table)
    (hkeeps : KeepsApart cfg prompt table table' (prefilled cfg prompt queryOf s c table) s') :
    WindowsKept cfg prompt table := by
  have hsome : (prefilled cfg prompt queryOf s c table).blkRepre.isSome := by
    show (reprRows cfg prompt table).isSome
    rw [reprRows_of_hasRepre hrepre]
    rfl
  obtain ⟨hshape, hshape'⟩ := (shapesMatch_prefilled_iff hloc hlocal).mp (hkeeps.shapes hsome)
  have hsavedLocal : savedLocal cfg table =
    min cfg.localWindowSz (table.length - cfg.initWindowSz) := rfl
  have hold := h.lengths.old
  have hnew := h.lengths.new
  have hsaved := savedFullyBlk_le cfg prompt
  have hfixed : keepFixedBlk cfg prompt =
    min (cfg.initWindowSz + cfg.localWindowSz) (fullyBlk cfg prompt) := rfl
  by_cases hdvd : cfg.blockSize ∣ prompt.numPromptTokens
  · refine .inr ⟨hdvd, ?_⟩
    rw [if_pos hdvd] at hold
    by_cases hpos : 0 < savedLocal cfg table
    · -- The last block of the prompt is full, and the new token is put into it.
      obtain ⟨id, hid⟩ := h.exists_last
      have hlast := last_restored h.nodup h.length_pos hloc hlocal hcache (.inl hpos)
        (hkeeps.restored hsome).1 hid
      have htaken := (holdsPromptToken_last_iff h.lengths h.fullyBlk_pos hlast).mpr hdvd
      exact absurd htaken ((h.newToken_iff
        (P := fun id offset => ¬ HoldsPromptToken cfg prompt s'.kCache id offset)).mp
        hkeeps.newToken id hid)
    · omega
  · refine .inl ⟨hdvd, ?_⟩
    rw [if_neg hdvd] at hold
    omega

theorem candidates_notMem (h : Tables cfg prompt table table' new) (hlocal : 1 ≤ cfg.localWindowSz)
    (hrows : s.blkRepre = some (innerBlocks cfg (fullyBlk cfg prompt))) {candidates : List Nat}
    (hcandidates : getRetrieveCandidateBlockIds cfg s (firstMeta prompt table') = some candidates)
    {id : Nat} (hid : id ∈ candidates) : id ∉ windowTargets cfg s table' := by
  rw [getRetrieveCandidateBlockIds, hrows] at hcandidates
  obtain rfl := Option.some.inj hcandidates
  obtain ⟨i, hi, rfl⟩ := List.mem_drop_iff_getElem.mp hid
  have hi' : i + cfg.initWindowSz < table'.length ∧
      i < ⌈cfg.mulSparseRatio (innerBlocks cfg (fullyBlk cfg prompt))⌉₊ := by
    rw [List.length_take] at hi
    change i + cfg.initWindowSz < min _ table'.length at hi
    omega
  have hinner : innerBlocks cfg (fullyBlk cfg prompt) =
      fullyBlk cfg prompt - keepFixedBlk cfg prompt ∧
      (0 < innerBlocks cfg (fullyBlk cfg prompt) →
        keepFixedBlk cfg prompt = cfg.initWindowSz + cfg.localWindowSz) := by
    unfold innerBlocks keepFixedBlk
    rw [if_neg (by omega)]
    omega
  have hsaved : savedFullyBlk cfg prompt =
      ⌈cfg.mulSparseRatio (innerBlocks cfg (fullyBlk cfg prompt))⌉₊ := by
    rw [hinner.1]
    rfl
  have hle := ceil_mulSparseRatio_le cfg (innerBlocks cfg (fullyBlk cfg prompt))
  have hlength := h.lengths.new
  rw [List.getElem_take]
  intro hmem
  have hlt : cfg.initWindowSz + i < table'.length := by omega
  have hother : ∀ j (hj : j < table'.length),
      table'[j] = table'[cfg.initWindowSz + i] → j = cfg.initWindowSz + i :=
    fun j hj heq => (h.nodup'.getElem_inj_iff).mp heq
  rcases List.mem_append.mp hmem with hmem | hmem
  · obtain ⟨j, hj, heq⟩ := List.mem_take_iff_getElem.mp hmem
    have := hother j (by omega) heq
    omega
  · split_ifs at hmem
    · rw [lastItems, if_neg (by omega)] at hmem
      obtain ⟨j, hj, heq⟩ := List.mem_drop_iff_getElem.mp hmem
      have := hother _ (by omega) heq
      have := hinner.2 (by omega)
      omega
    · cases hmem

theorem WindowsKept.keepsApart (h : Tables cfg prompt table table' new)
    (hinit : 1 ≤ cfg.initWindowSz) (hlocal : 1 ≤ cfg.localWindowSz) (hloc : s.localWindow = none)
    (hcache : s.kCache = promptBlock table) (hrepre : HasRepre cfg prompt table)
    (hkept : WindowsKept cfg prompt table) :
    ∃ s', restoreWindows cfg (prefilled cfg prompt queryOf s c table) (firstMeta prompt table') =
        some s' ∧
      KeepsApart cfg prompt table table' (prefilled cfg prompt queryOf s c table) s' := by
  have hrows : (prefilled cfg prompt queryOf s c table).blkRepre =
      some (innerBlocks cfg (fullyBlk cfg prompt)) := reprRows_of_hasRepre hrepre
  have hsavedLocal : savedLocal cfg table =
    min cfg.localWindowSz (table.length - cfg.initWindowSz) := rfl
  have hold := h.lengths.old
  have hnew := h.lengths.new
  have hsaved := savedFullyBlk_le cfg prompt
  have hfixed : keepFixedBlk cfg prompt =
    min (cfg.initWindowSz + cfg.localWindowSz) (fullyBlk cfg prompt) := rfl
  have hlengths : (¬ cfg.blockSize ∣ prompt.numPromptTokens ∧
        table.length = fullyBlk cfg prompt + 1 ∧
        (cfg.initWindowSz + cfg.localWindowSz ≤ table.length ∨ table.length ≤ cfg.initWindowSz)) ∨
      (cfg.blockSize ∣ prompt.numPromptTokens ∧ table.length = fullyBlk cfg prompt ∧
        cfg.initWindowSz = table.length) := by
    rcases hkept with ⟨hdvd, hcases⟩ | ⟨hdvd, heq⟩
    · rw [if_neg hdvd] at hold
      exact .inl ⟨hdvd, hold, hcases⟩
    · rw [if_pos hdvd] at hold
      exact .inr ⟨hdvd, hold, heq⟩
  have hshapes : ShapesMatch cfg (prefilled cfg prompt queryOf s c table) table' := by
    rw [shapesMatch_prefilled_iff hloc hlocal]
    omega
  have hapart : (windowTargets cfg (prefilled cfg prompt queryOf s c table) table').Nodup := by
    unfold windowTargets
    rw [prefilled_localWindow hloc]
    by_cases hpos : 0 < savedLocal cfg table
    · rw [if_pos hpos, Option.isSome_some, if_pos rfl]
      exact nodup_take_append_lastItems h.nodup' (by omega) (by omega)
    · rw [if_neg hpos, Option.isSome_none, if_neg Bool.false_ne_true, List.append_nil]
      exact h.nodup'.sublist (List.take_sublist _ _)
  have hrun := prepareInitAndLocalWindow_eq (m := firstMeta prompt table') hshapes
  refine ⟨_, (if_neg (by rw [hrows]; exact Bool.false_ne_true)).trans hrun, ?_⟩
  have hmap := map_writeAll (prefilled cfg prompt queryOf s c table).kCache hapart
    (length_windowContents hshapes (.inl rfl))
  have hmap' := map_writeAll (prefilled cfg prompt queryOf s c table).vCache hapart
    (length_windowContents hshapes (.inr rfl))
  exact
    { length := h.slots
      kept := ⟨new, h.kept⟩
      shapes := fun _ => hshapes
      apart := fun _ => hapart
      restored := fun _ => ⟨hmap, hmap'⟩
      inPlace := fun hnone => by
        rw [hrows] at hnone
        cases hnone
      swapArea := fun candidates hcandidates id hid =>
        candidates_notMem h hlocal hrows hcandidates hid
      newToken := by
        rw [h.newToken_iff (P := fun id offset => ¬ HoldsPromptToken cfg prompt _ id offset)]
        intro id hid
        rcases hlengths with ⟨hdvd, hlength, hcases⟩ | ⟨hdvd, hlength, heq⟩
        · have hlast := last_restored h.nodup h.length_pos hloc hlocal hcache (by omega) hmap hid
          exact mt (holdsPromptToken_last_iff h.lengths h.fullyBlk_pos hlast).mp hdvd
        · -- All of the prompt is in the init window, and the last block is a new one.
          obtain ⟨x, hx, htable'⟩ := eq_concat_of_lt (by omega) h.nodup' h.kept
          rw [htable', List.getLast?_concat] at hid
          obtain rfl := Option.some.inj hid
          have hnot : x ∉ windowTargets cfg (prefilled cfg prompt queryOf s c table) table' := by
            unfold windowTargets
            rw [prefilled_localWindow hloc, if_neg (show ¬ 0 < savedLocal cfg table by omega),
              Option.isSome_none, if_neg Bool.false_ne_true, List.append_nil, htable', heq, List.take_left']
            · exact hx
            · rfl
          rintro ⟨i, hi, hlt⟩
          change writeAll (prefilled cfg prompt queryOf s c table).kCache
            (windowTargets cfg (prefilled cfg prompt queryOf s c table) table') _ x = some i at hi
          rw [writeAll_of_notMem hnot, kCache_prefilled, hcache] at hi
          exact not_holdsPromptToken_of_notMem hx ⟨i, hi, hlt⟩ }

theorem keepsApart_of_not_hasRepre (queryOf : Nat → Q) (h : Tables cfg prompt table table' new)
    (hcache : s.kCache = promptBlock table) (hrepre : ¬ HasRepre cfg prompt table) :
    KeepsApart cfg prompt table table' (prefilled cfg prompt queryOf s c table)
        (prefilled cfg prompt queryOf s c table) ↔
      fullyBlk cfg prompt - keepFixedBlk cfg prompt ≤ savedFullyBlk cfg prompt := by
  have hrows : (prefilled cfg prompt queryOf s c table).blkRepre = none :=
    reprRows_of_not_hasRepre hrepre
  have hsome : ¬ (prefilled cfg prompt queryOf s c table).blkRepre.isSome := by
    rw [hrows]
    exact Bool.false_ne_true
  have hold := h.lengths.old
  have hnew := h.lengths.new
  have hsaved := savedFullyBlk_le cfg prompt
  have hfixed : keepFixedBlk cfg prompt ≤ fullyBlk cfg prompt := Nat.min_le_right _ _
  have hfull := h.fullyBlk_pos
  obtain ⟨id, hid⟩ := h.exists_last
  have hlast : table'.length ≤ table.length →
      (prefilled cfg prompt queryOf s c table).kCache id = some (table.length - 1) := by
    intro hle
    rw [getLast?_of_le hle (by omega) h.kept] at hid
    have hmap := map_promptBlock_getLast? h.nodup h.length_pos
    rw [hid] at hmap
    rw [kCache_prefilled, hcache]
    exact Option.some.inj hmap
  constructor
  · intro hkeeps
    have hprefix := (hkeeps.inPlace hrows).length_le
    by_cases hdvd : cfg.blockSize ∣ prompt.numPromptTokens
    · rw [if_pos hdvd] at hold
      by_contra hdropped
      have htaken := (holdsPromptToken_last_iff h.lengths hfull (hlast (by omega))).mpr hdvd
      exact (h.newToken_iff (P := fun id offset => ¬ HoldsPromptToken cfg prompt
        (prefilled cfg prompt queryOf s c table).kCache id offset)).mp hkeeps.newToken id hid htaken
    · rw [if_neg hdvd] at hold
      omega
  · intro hall
    have hle : table.length ≤ table'.length := by
      split_ifs at hold <;> omega
    exact
      { length := h.slots
        kept := ⟨new, h.kept⟩
        shapes := fun h => absurd h hsome
        apart := fun h => absurd h hsome
        restored := fun h => absurd h hsome
        inPlace := fun _ => by
          have hkept := h.kept
          rw [show table.length - table'.length = 0 by omega, List.drop_zero] at hkept
          exact ⟨new, hkept.symm⟩
        swapArea := fun candidates hcandidates => by
          rw [getRetrieveCandidateBlockIds, hrows] at hcandidates
          cases hcandidates
        newToken := by
          rw [h.newToken_iff (P := fun id offset => ¬ HoldsPromptToken cfg prompt _ id offset)]
          intro id' hid'
          obtain rfl := Option.some.inj (hid.symm.trans hid')
          by_cases hdvd : cfg.blockSize ∣ prompt.numPromptTokens
          · rw [if_pos hdvd] at hold
            obtain ⟨x, hx, htable'⟩ := eq_concat_of_lt (by omega) h.nodup' h.kept
            rw [htable', List.getLast?_concat] at hid
            obtain rfl := Option.some.inj hid
            rw [kCache_prefilled, hcache]
            exact not_holdsPromptToken_of_notMem hx
          · rw [if_neg hdvd] at hold
            exact mt (holdsPromptToken_last_iff h.lengths hfull (hlast (by omega))).mp hdvd }

end Prompt

theorem tables_of_allocateSlots {new : List Nat} (hlong : cfg.blockSize < prompt.numPromptTokens)
    (hlength : table.length = prompt.numPromptTokens ⌈/⌉ cfg.blockSize) (hnodup : table.Nodup)
    (halloc : allocateSlots cfg (estimateNumSlotsSparsed cfg prompt.numPromptTokens
      (prompt.numPromptTokens + 1)) table new = some table') (hnodup' : table'.Nodup) :
    Tables cfg prompt table table' new := by
  obtain ⟨hkept, hslots⟩ := allocateSlots_eq_some halloc
  have hsaved := savedFullyBlk_le cfg prompt
  have hfixed : keepFixedBlk cfg prompt ≤ fullyBlk cfg prompt := Nat.min_le_right _ _
  refine ⟨hlong, ⟨by rw [hlength, prompt_ceilDiv], ?_⟩, hnodup, hnodup', ?_, hslots⟩
  · rw [hslots, estimateNumSlotsSparsed_ceilDiv Nat.one_pos, succ_ceilDiv]
    omega
  · rw [hslots]
    exact hkept

/-- **When the first decode step keeps the blocks of the prompt and the new token apart.** If there is a
representation: the prompt ends inside a block and the windows do not overlap, or only the init window is
there and it takes all; without: nothing is dropped. -/
theorem keepsApart_iff [DecidableEq η] (cfg : Config) (outside : Outside Q η (Option Nat))
    (prompt : Prompt η) (queryOf : Nat → Q) (table table' new : List Nat) (c : Nat)
    (chunks : List (Chunk Q)) (hinit : 1 ≤ cfg.initWindowSz) (hlocal : 1 ≤ cfg.localWindowSz)
    (hlong : cfg.blockSize < prompt.numPromptTokens)
    (hprefills : Prefills cfg prompt queryOf c chunks table) (hnodup : table.Nodup)
    (halloc : allocateSlots cfg (estimateNumSlotsSparsed cfg prompt.numPromptTokens
      (prompt.numPromptTokens + 1)) table new = some table') (hnodup' : table'.Nodup) :
    (∃ s s', prefill cfg outside prompt (State.new (promptBlock table) (promptBlock table)) c chunks =
        some s ∧ restoreWindows cfg s (firstMeta prompt table') = some s' ∧
      KeepsApart cfg prompt table table' s s') ↔
    (HasRepre cfg prompt table → WindowsKept cfg prompt table) ∧
      (¬ HasRepre cfg prompt table →
        fullyBlk cfg prompt - keepFixedBlk cfg prompt ≤ savedFullyBlk cfg prompt) := by
  have htables := tables_of_allocateSlots hlong hprefills.length hnodup halloc hnodup'
  have hprefill : prefill cfg outside prompt (State.new (promptBlock table) (promptBlock table)) c
      chunks = _ := prefill_eq hprefills (length_groupOf_of_none rfl)
    (fun h => absurd h Bool.false_ne_true) hlong.le
  rw [hprefill]
  by_cases hrepre : HasRepre cfg prompt table
  · constructor
    · rintro ⟨s, s', hs, -, hkeeps⟩
      obtain rfl := Option.some.inj hs
      exact ⟨fun _ => hkeeps.windowsKept htables hinit hlocal rfl rfl hrepre, fun h => absurd hrepre h⟩
    · rintro ⟨hkept, -⟩
      obtain ⟨s', hrestore, hkeeps⟩ :=
        (hkept hrepre).keepsApart (s := State.new (promptBlock table) (promptBlock table)) htables
          hinit hlocal rfl rfl hrepre
      exact ⟨_, s', rfl, hrestore, hkeeps⟩
  · have hiff := keepsApart_of_not_hasRepre queryOf (c := c)
      (s := State.new (promptBlock table) (promptBlock table)) htables rfl hrepre
    have hrows : (prefilled cfg prompt queryOf (State.new (promptBlock table) (promptBlock table)) c
        table).blkRepre.isNone = true := by
      show (reprRows cfg prompt table).isNone = true
      rw [reprRows_of_not_hasRepre hrepre]
      rfl
    constructor
    · rintro ⟨s, s', hs, hs', hkeeps⟩
      obtain rfl := Option.some.inj hs
      obtain rfl := Option.some.inj ((if_pos hrows).symm.trans hs')
      exact ⟨fun h => absurd h hrepre, fun _ => hiff.mp hkeeps⟩
    · rintro ⟨-, hall⟩
      exact ⟨_, _, rfl, if_pos hrows, hiff.mpr (hall hrepre)⟩

/-- The blocks of the store and the retrieval do not matter. -/
def outsideNone : Outside Nat Nat (Option Nat) := ⟨fun _ => none, fun _ => none, fun _ => none⟩

/-- A prompt of three blocks and a half. -/
theorem keepsApart_iff_half_block :
    ∃ s s', prefill (.half 2 2 Nat.two_pos Nat.two_pos)
        outsideNone ⟨7, [10, 11, 12]⟩
        (State.new (promptBlock [2, 3, 4, 5]) (promptBlock [2, 3, 4, 5])) 0
        [⟨7, [2, 3, 4, 5], 0, [0, 1, 2, 3, 4, 5, 6]⟩] = some s ∧
      restoreWindows (.half 2 2 Nat.two_pos Nat.two_pos) s
        (firstMeta ⟨7, [10, 11, 12]⟩ [2, 3, 4, 5]) = some s' ∧
      KeepsApart (.half 2 2 Nat.two_pos Nat.two_pos)
        ⟨7, [10, 11, 12]⟩ [2, 3, 4, 5] [2, 3, 4, 5] s s' :=
  (keepsApart_iff (.half 2 2 Nat.two_pos Nat.two_pos)
    outsideNone ⟨7, [10, 11, 12]⟩ id [2, 3, 4, 5] [2, 3, 4, 5] [] 0
    [⟨7, [2, 3, 4, 5], 0, [0, 1, 2, 3, 4, 5, 6]⟩] (by decide) (by decide) (by decide)
    ⟨by decide, ⟨by unfold Chunk.Reads; decide, rfl⟩, by decide, rfl, by decide⟩ (by decide)
    (by decide +kernel) (by decide)).mpr
    ⟨fun _ => .inl ⟨by decide, .inl (by decide)⟩, fun h => absurd ⟨by decide, by decide⟩ h⟩

/-- A prompt of four full blocks: the new token is put into the first slot of the last one. -/
theorem not_keepsApart_full_blocks :
    ¬ ∀ (cfg : Config) (outside : Outside Nat Nat (Option Nat)) (prompt : Prompt Nat)
      (queryOf : Nat → Nat) (table table' new : List Nat) (c : Nat) (chunks : List (Chunk Nat)),
      1 ≤ cfg.initWindowSz → 1 ≤ cfg.localWindowSz → cfg.blockSize < prompt.numPromptTokens →
      Prefills cfg prompt queryOf c chunks table → table.Nodup →
      allocateSlots cfg (estimateNumSlotsSparsed cfg prompt.numPromptTokens
        (prompt.numPromptTokens + 1)) table new = some table' → table'.Nodup →
      ∃ s s', prefill cfg outside prompt (State.new (promptBlock table) (promptBlock table)) c
          chunks = some s ∧ restoreWindows cfg s (firstMeta prompt table') = some s' ∧
        KeepsApart cfg prompt table table' s s' := by
  intro h
  have hprefills : Prefills
      (.half 2 2 Nat.two_pos Nat.two_pos)
      (⟨8, [10, 11, 12, 13]⟩ : Prompt Nat) id 0 [⟨8, [2, 3, 4, 5], 0, [0, 1, 2, 3, 4, 5, 6, 7]⟩]
      [2, 3, 4, 5] :=
    ⟨by decide, ⟨by unfold Chunk.Reads; decide, rfl⟩, by decide, rfl, by decide⟩
  have halloc : allocateSlots
      (.half 2 2 Nat.two_pos Nat.two_pos)
      (estimateNumSlotsSparsed
        (.half 2 2 Nat.two_pos Nat.two_pos) 8 9)
      [2, 3, 4, 5] [] = some [2, 3, 4, 5] := by decide +kernel
  obtain ⟨s, s', hs, -, hkeeps⟩ := h _ outsideNone _ id _ _ _ 0 _ (by decide) (by decide)
    (by decide) hprefills (by decide) halloc (by decide)
  rw [prefill_eq hprefills (length_groupOf_of_none rfl) (fun h => absurd h Bool.false_ne_true)
    (by decide)] at hs
  obtain rfl := Option.some.inj hs
  have hkept := hkeeps.windowsKept
    (tables_of_allocateSlots (by decide) hprefills.length (by decide) halloc (by decide))
    (by decide) (by decide) rfl rfl ⟨by decide, by decide⟩
  rcases hkept with ⟨hdvd, -⟩ | ⟨-, hlength⟩
  · exact hdvd (by decide)
  · exact absurd hlength (by decide)

end UnifiedCache.Kvstar
