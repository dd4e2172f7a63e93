import UnifiedCache.Kvstar.Proofs.RetrievalProofs
import UnifiedCache.Lib.History

/-!
# The schedule of the retrievals

Every group of queries is submitted when its last query is there, and two groups later its result is
fetched. What one decode step does keeps an invariant that says where each group is.
-/

open Lib Lib.History

namespace UnifiedCache.Kvstar

variable {Q η β : Type} {cfg : Config} {outside : Outside Q η β} {prompt : Prompt η}
  {queryOf : Nat → Q} {s s' s'' : State Q η β} {m : ReqMeta η} {table : List Nat} {n k : Nat}

/-! ## Groups of decode steps -/

/-- The record of the `j`-th group of decode steps. -/
def groupRecord (cfg : Config) (j : Nat) : Record := .decode ((j * cfg.retrievalStride + 1 : Nat) : Int)

variable {j : Nat}

theorem groupRecord_inj {i : Nat} (h : groupRecord cfg i = groupRecord cfg j) : i = j := by
  have hstride := cfg.retrievalStride_pos
  have heq := Record.decode.inj h
  have hmul : i * cfg.retrievalStride = j * cfg.retrievalStride := by omega
  exact Nat.eq_of_mul_eq_mul_right hstride hmul

/-- The `j`-th group with its first `i` queries. -/
def groupWith (cfg : Config) (prompt : Prompt η) (queryOf : Nat → Q) (j i : Nat) : List (Option Q) :=
  (List.range cfg.retrievalStride).map fun t =>
    if t < i then some (queryOf (prompt.numPromptTokens + j * cfg.retrievalStride + t)) else none

theorem length_groupWith (j i : Nat) :
    (groupWith cfg prompt queryOf j i).length = cfg.retrievalStride := by
  rw [groupWith, List.length_map, List.length_range]

theorem groupWith_zero (j : Nat) :
    groupWith cfg prompt queryOf j 0 = List.replicate cfg.retrievalStride none := by
  rw [groupWith, List.eq_replicate_iff]
  refine ⟨by rw [List.length_map, List.length_range], fun x hx => ?_⟩
  obtain ⟨t, -, rfl⟩ := List.mem_map.mp hx
  rfl

theorem groupWith_set {i : Nat} :
    (groupWith cfg prompt queryOf j i).set i
        (some (queryOf (prompt.numPromptTokens + j * cfg.retrievalStride + i))) =
      groupWith cfg prompt queryOf j (i + 1) := by
  apply List.ext_getElem
  · rw [List.length_set, length_groupWith, length_groupWith]
  · intro t ht ht'
    simp only [groupWith, List.getElem_set, List.getElem_map, List.getElem_range]
    by_cases heq : i = t
    · rw [if_pos heq, if_pos (by omega), heq]
    · rw [if_neg heq, if_congr (show t < i ↔ t < i + 1 by omega) rfl rfl]

theorem groupWith_stride (j : Nat) :
    groupWith cfg prompt queryOf j cfg.retrievalStride =
      (List.range cfg.retrievalStride).map fun t =>
        some (queryOf (prompt.numPromptTokens + j * cfg.retrievalStride + t)) := by
  apply List.map_congr_left
  intro t ht
  exact if_pos (List.mem_range.mp ht)

theorem filterMap_groupWith_ne_nil (j : Nat) :
    (groupWith cfg prompt queryOf j cfg.retrievalStride).filterMap id ≠ [] := by
  rw [groupWith_stride]
  apply List.ne_nil_of_mem (a := queryOf (prompt.numPromptTokens + j * cfg.retrievalStride + 0))
  rw [List.mem_filterMap]
  exact ⟨_, List.mem_map.mpr ⟨0, List.mem_range.mpr cfg.retrievalStride_pos, rfl⟩, rfl⟩

/-! ## Formulas for names of groups -/

theorem getRetrieveRecord_eq {curStep : Nat} (h : curStep = (j + 1) * cfg.retrievalStride + 1) :
    getRetrieveRecord cfg curStep = groupRecord cfg j := by
  have hstride := cfg.retrievalStride_pos
  rw [Nat.add_mul, Nat.one_mul] at h
  rw [getRetrieveRecord, if_neg (by omega), groupRecord, h]
  congr 1
  omega

theorem needRetrieveRecord_eq {loadStep : Nat} (h : loadStep = (j + 2) * cfg.retrievalStride + 1) :
    needRetrieveRecord cfg loadStep = groupRecord cfg j := by
  have hstride := cfg.retrievalStride_pos
  have hlt : ¬ loadStep ≤ cfg.retrievalStride * 2 := by
    rw [h, Nat.add_mul, Nat.mul_comm 2]
    omega
  have hgroup : loadStep ⌈/⌉ cfg.retrievalStride = j + 3 := by
    apply le_antisymm
    · rw [ceilDiv_le_iff_le_mul hstride, h, Nat.mul_comm, Nat.mul_add, Nat.mul_add]
      omega
    · rw [← not_lt, Nat.lt_succ_iff, ceilDiv_le_iff_le_mul hstride, h, Nat.mul_comm]
      omega
  rw [needRetrieveRecord, if_neg hlt, hgroup, groupRecord]
  push_cast
  congr 2
  ring

/-! ## The invariant -/

/-- What has to be in the history before an action, and what a group of decode steps has to be. -/
def Allowed (cfg : Config) (prompt : Prompt η) (queryOf : Nat → Q) (pre : List (Action Q)) :
    Action Q → Prop
  | .lookUp record => ∃ group task, Action.submit record group task ∈ pre
  | .fetch record task => ∃ group, Action.submit record group (some task) ∈ pre
  | .submit (.decode step) group _ => ∃ d : Nat, step = d ∧ 1 ≤ d ∧
      group = some ((List.range cfg.retrievalStride).map fun i =>
        some (queryOf (prompt.numPromptTokens + (d + i) - 1)))
  | _ => True

/-- The records that are looked up. -/
def lookUps (trace : List (Action Q)) : List Record :=
  trace.filterMap fun | .lookUp record => some record | _ => none

/-- The records whose results are fetched. -/
def fetches (trace : List (Action Q)) : List Record :=
  trace.filterMap fun | .fetch record _ => some record | _ => none

theorem lookUps_append (trace l : List (Action Q)) :
    lookUps (trace ++ l) = lookUps trace ++ lookUps l := List.filterMap_append

theorem fetches_append (trace l : List (Action Q)) :
    fetches (trace ++ l) = fetches trace ++ fetches l := List.filterMap_append

/-- After `step` decode steps. -/
structure Inv (cfg : Config) (prompt : Prompt η) (queryOf : Nat → Q) (n k step : Nat)
    (s : State Q η β) : Prop where
  repre : s.blkRepre = some n
  hashes : s.blockHashes = prompt.blockHashes
  /-- The group that is filled, and those after it. -/
  standby : ∀ j, step / cfg.retrievalStride ≤ j →
    s.groupOf cfg (groupRecord cfg j) = groupWith cfg prompt queryOf j
      (if j = step / cfg.retrievalStride then step % cfg.retrievalStride else 0)
  fresh : ∀ j, step / cfg.retrievalStride ≤ j →
    s.stepGroupRetrieveResult (groupRecord cfg j) = none
  /-- The group before it waits to be looked up. -/
  ready : ∀ j, j + 1 = step / cfg.retrievalStride → Ready n k s (groupRecord cfg j)
  guarded : Guarded (Allowed cfg prompt queryOf) s.trace
  looked : lookUps s.trace =
    .prefill :: (List.range (step / cfg.retrievalStride - 1)).map (groupRecord cfg)
  fetched : fetches s.trace = if k = 0 then [] else lookUps s.trace
  tasks : ∀ record group task, Action.submit record group task ∈ s.trace → (task = none ↔ k = 0)

/-! ## Parts of a decode step -/

theorem groupOf_congr {r : Record} (h : s'.standbyQueryGroup r = s.standbyQueryGroup r) :
    s'.groupOf cfg r = s.groupOf cfg r := by rw [State.groupOf, State.groupOf, h]

theorem saveToStandby_spec {i qsl : Nat} {query : List Q}
    (hgroup : s.groupOf cfg (groupRecord cfg j) = groupWith cfg prompt queryOf j i)
    (hi : i < cfg.retrievalStride) (hrow : query[qsl]? =
      some (queryOf (prompt.numPromptTokens + j * cfg.retrievalStride + i))) :
    ∃ s', saveToStandby cfg s (groupRecord cfg j) (i : Nat) qsl query = some s' ∧
      Frame (· = groupRecord cfg j) s s' ∧
      s'.trace = s.trace ++ [.save (groupRecord cfg j) (i : Nat)
        (queryOf (prompt.numPromptTokens + j * cfg.retrievalStride + i))] ∧
      s'.standbyQueryGroup (groupRecord cfg j) =
        some (groupWith cfg prompt queryOf j (i + 1)) ∧
      s'.stepGroupRetrieveResult = s.stepGroupRetrieveResult := by
  have hlength : (s.groupOf cfg (groupRecord cfg j)).length = cfg.retrievalStride := by
    rw [hgroup, length_groupWith]
  refine ⟨_, saveToStandby_eq hlength hi hrow, ?_, rfl, ?_, rfl⟩
  · exact ⟨rfl, rfl, rfl, rfl, fun r hr => Function.update_of_ne hr _ _, fun _ _ => rfl,
      fun _ _ => rfl, fun _ _ => rfl, List.prefix_rfl, List.prefix_append _ _⟩
  · rw [hgroup, groupWith_set]
    exact Function.update_self ..

theorem getRetrieveCandidateBlockIds_spec (cfg : Config) (m : ReqMeta η) (hrepre : s.blkRepre = some n)
    (hk : k = ⌈cfg.mulSparseRatio n⌉₊)
    (hlength : 0 < k → cfg.initWindowSz + k ≤ m.vllmBlockIds.length) :
    ∃ candidates, getRetrieveCandidateBlockIds cfg s m = some candidates ∧
      candidates.length = k := by
  refine ⟨_, by rw [getRetrieveCandidateBlockIds, hrepre, Option.map_some], ?_⟩
  rw [List.length_drop, List.length_take, ← hk]
  rcases Nat.eq_zero_or_pos k with hzero | hpos
  · omega
  · have := hlength hpos
    omega

variable {d : DecodeStep Q}

theorem attentionBegin_decode [DecidableEq η] {step : Nat} (hrepre : s.blkRepre = some n) :
    attentionBegin cfg outside s (d.reqMeta prompt (step + 1)) d.query =
      decodeBegin cfg outside s (d.reqMeta prompt (step + 1)) d.query := by
  have hstage : ¬ (d.reqMeta prompt (step + 1)).stage = .prefill := by
    show ¬ (if 0 < step + 1 then ReqStage.decode else .prefill) = .prefill
    rw [if_pos (Nat.succ_pos step)]
    exact ReqStage.noConfusion
  have hsome : ¬ s.blkRepre.isNone = true := by
    rw [hrepre]
    exact Bool.false_ne_true
  rw [attentionBegin, if_neg hstage, if_neg hsome, if_neg fun h => h rfl]

theorem attentionFinished_decode [DecidableEq η] {step : Nat} :
    attentionFinished cfg outside s (d.reqMeta prompt (step + 1)) =
      if cfg.retrievalStride * 2 ≤ step + 1 ∧ (step + 1) % cfg.retrievalStride = 0 then
        (getRetrieveCandidateBlockIds cfg s (d.reqMeta prompt (step + 1) : ReqMeta η)).bind
          (loadRetrieveResultAsync cfg outside s (step + 2))
      else some s := by
  have hstage : (d.reqMeta prompt (step + 1)).stage ≠ .prefill := by
    show (if 0 < step + 1 then ReqStage.decode else .prefill) ≠ .prefill
    rw [if_pos (Nat.succ_pos step)]
    exact ReqStage.noConfusion
  rw [attentionFinished, if_pos hstage]
  rfl

theorem decodeBegin_eq [DecidableEq η] {step : Nat} (hstep : 0 < step) :
    decodeBegin cfg outside s (d.reqMeta prompt (step + 1)) d.query =
      (saveToStandby cfg s (groupRecord cfg (step / cfg.retrievalStride))
        (step % cfg.retrievalStride : Nat) d.queryStartLoc d.query).bind fun s =>
      (retrieveGroup cfg s (d.reqMeta prompt (step + 1) : ReqMeta η)).bind fun s =>
      if (step + 1) % cfg.retrievalStride = 1 then some (waitForBlkTransferTaskDone outside s)
      else some s := by
  have hne : ¬ (d.reqMeta prompt (step + 1) : ReqMeta η).step = 1 := by
    show ¬ step + 1 = 1
    omega
  unfold decodeBegin beginDecode
  simp only [if_neg hne]
  rfl

theorem retrieveGroup_of_ne {step : Nat} (hend : (step + 1) % cfg.retrievalStride ≠ 0) :
    retrieveGroup cfg s (d.reqMeta prompt (step + 1) : ReqMeta η) = some s := if_neg hend

variable {record : Record}

theorem loadRetrieveResultAsync_spec [DecidableEq η] {loadStep : Nat}
    (hrecord : needRetrieveRecord cfg loadStep = record) (hload : record ≠ .prefill ∨ loadStep = 1)
    (hretrieve : RetrieveOk outside) (hk : k ≤ n)
    (hhashes : 0 < k → n + cfg.initWindowSz ≤ s.blockHashes.length) (h : Ready n k s record)
    (candidates : List Nat) :
    ∃ s' l, loadRetrieveResultAsync cfg outside s loadStep candidates = some s' ∧
      Frame (· = record) s s' ∧ s'.trace = s.trace ++ .lookUp record :: l ∧
      ((k = 0 ∧ l = []) ∨
        (0 < k ∧ ∃ id group, l = [.fetch record id] ∧
          Action.submit record group (some id) ∈ s.trace)) := by
  obtain ⟨s₁, hashes, l, hfetch, hresult, hframe, htrace, hl⟩ :=
    fetchRetrieveResult_spec hretrieve hk hhashes h
  obtain ⟨s₂, hswap, hframe', htrace'⟩ := swapIn_spec (s := s₁) candidates hashes
  have hall := hframe.trans hframe'
  simp only [or_false] at hall
  refine ⟨s₂, l, ?_, hall, by rw [htrace', htrace], hl⟩
  unfold loadRetrieveResultAsync
  simp only [hrecord, hfetch, Option.bind_eq_bind, Option.bind_some, hresult]
  rw [if_pos hload, hswap]

theorem retrieveGroup_spec {step : Nat} (hrepre : s.blkRepre = some n)
    (hk : k = ⌈cfg.mulSparseRatio n⌉₊)
    (hlength : 0 < k → cfg.initWindowSz + k ≤ d.vllmBlockIds.length)
    (hstep : step + 1 = (j + 1) * cfg.retrievalStride)
    (hgroup : s.standbyQueryGroup (groupRecord cfg j) =
      some (groupWith cfg prompt queryOf j cfg.retrievalStride))
    (hresult : s.stepGroupRetrieveResult (groupRecord cfg j) = none) :
    ∃ s', retrieveGroup cfg s (d.reqMeta prompt (step + 1) : ReqMeta η) = some s' ∧
      Ready n k s' (groupRecord cfg j) ∧ Frame (· = groupRecord cfg j) s s' ∧
      s'.trace = s.trace ++ [.submit (groupRecord cfg j)
        (some (groupWith cfg prompt queryOf j cfg.retrievalStride))
        (if k = 0 then none else some s.retrieveTasks.length)] ∧
      s'.standbyQueryGroup = s.standbyQueryGroup := by
  obtain ⟨candidates, hcandidates, hnum⟩ := getRetrieveCandidateBlockIds_spec cfg
    (d.reqMeta prompt (step + 1) : ReqMeta η) hrepre hk hlength
  have hrecord : getRetrieveRecord cfg (step + 2) = groupRecord cfg j :=
    getRetrieveRecord_eq (congrArg (· + 1) hstep)
  have hend : (d.reqMeta prompt (step + 1) : ReqMeta η).step % cfg.retrievalStride = 0 := by
    show (step + 1) % cfg.retrievalStride = 0
    rw [hstep, Nat.mul_mod_left]
  have hspec := retrievalAsync_spec (k := k) hrecord hrepre hgroup (filterMap_groupWith_ne_nil j)
    hresult
  unfold retrieveGroup
  rw [if_pos hend, hcandidates]
  show ∃ s', retrievalAsync cfg s (step + 2) candidates.length = some s' ∧ _
  rw [hnum]
  exact hspec

/-! ## Histories that go on -/

variable {task : Option Nat}

theorem allowed_submit {pre : List (Action Q)} :
    Allowed cfg prompt queryOf pre (.submit (groupRecord cfg j)
      (some (groupWith cfg prompt queryOf j cfg.retrievalStride)) task) := by
  refine ⟨j * cfg.retrievalStride + 1, rfl, Nat.le_add_left 1 _, ?_⟩
  rw [groupWith_stride]
  congr 2
  funext t
  congr 2
  omega

theorem Ready.submit_mem (h : Ready n k s record) :
    ∃ group task, Action.submit record group task ∈ s.trace := by
  rcases h with ⟨-, -, group, hmem⟩ | ⟨-, id, task, h⟩
  · exact ⟨group, none, hmem⟩
  · obtain ⟨group, hmem⟩ := h.submitted
    exact ⟨group, some id, hmem⟩

theorem guarded_lookUp {l : List (Action Q)} (h : Ready n k s record)
    (hguarded : Guarded (Allowed cfg prompt queryOf) s.trace)
    (hl : (k = 0 ∧ l = []) ∨ (0 < k ∧ ∃ id group, l = [.fetch record id] ∧
      Action.submit record group (some id) ∈ s.trace)) :
    Guarded (Allowed cfg prompt queryOf) (s.trace ++ .lookUp record :: l) := by
  have hlook : Guarded (Allowed cfg prompt queryOf) (s.trace ++ [.lookUp record]) :=
    hguarded.concat h.submit_mem
  rcases hl with ⟨-, rfl⟩ | ⟨-, id, group, rfl, hmem⟩
  · exact hlook
  · have hallowed : Allowed cfg prompt queryOf (s.trace ++ [.lookUp record]) (.fetch record id) :=
      ⟨group, List.mem_append_left _ hmem⟩
    have hfetch := hlook.concat hallowed
    rwa [List.append_assoc] at hfetch

theorem lookUps_fetches_append (record : Record) (trace : List (Action Q)) {l : List (Action Q)}
    (hl : (k = 0 ∧ l = []) ∨ (0 < k ∧ ∃ id group, l = [.fetch record id] ∧
      Action.submit record group (some id) ∈ s.trace)) :
    lookUps (trace ++ .lookUp record :: l) = lookUps trace ++ [record] ∧
      fetches (trace ++ .lookUp record :: l) = fetches trace ++ if k = 0 then [] else [record] := by
  rw [lookUps_append, fetches_append]
  rcases hl with ⟨rfl, rfl⟩ | ⟨hpos, id, group, rfl, -⟩
  · exact ⟨rfl, rfl⟩
  · rw [if_neg (by omega)]
    exact ⟨rfl, rfl⟩

variable {trace : List (Action Q)} {group : Option (List (Option Q))}

theorem mem_trace_lookUp {r : Record} {l : List (Action Q)}
    (hl : (k = 0 ∧ l = []) ∨ (0 < k ∧ ∃ id group, l = [.fetch record id] ∧
      Action.submit record group (some id) ∈ s.trace))
    (h : Action.submit r group task ∈ trace ++ .lookUp record :: l) :
    Action.submit r group task ∈ trace := by
  rcases List.mem_append.mp h with hmem | hmem
  · exact hmem
  · rcases List.mem_cons.mp hmem with heq | hmem
    · cases heq
    · rcases hl with ⟨-, rfl⟩ | ⟨-, id, group', rfl, -⟩
      · cases hmem
      · cases List.mem_singleton.mp hmem

/-! ## Decode steps keep the invariant -/

theorem Inv.step_middle [DecidableEq η] {step : Nat} (h : Inv cfg prompt queryOf n k step s)
    (hstep : 0 < step) (hmid : step % cfg.retrievalStride + 1 < cfg.retrievalStride)
    (hrow : d.query[d.queryStartLoc]? = some (queryOf (prompt.numPromptTokens + step))) :
    ∃ s', forward cfg outside s (d.reqMeta prompt (step + 1)) d.query = some s' ∧
      Inv cfg prompt queryOf n k (step + 1) s' := by
  obtain ⟨hdiv, hmod⟩ := succ_div_mod_of_lt hmid
  have hgroup := h.standby _ (Nat.le_refl _)
  rw [if_pos rfl] at hgroup
  have hrow' : d.query[d.queryStartLoc]? = some (queryOf (prompt.numPromptTokens +
      step / cfg.retrievalStride * cfg.retrievalStride + step % cfg.retrievalStride)) := by
    rw [hrow, Nat.add_assoc, Nat.div_add_mod']
  obtain ⟨s₁, hsave, hframe, htrace, hstandby, hresult⟩ :=
    saveToStandby_spec hgroup (by omega) hrow'
  -- Whether the transfers are waited for makes no difference to the schedule.
  obtain ⟨s₂, hwait, hframe₂, htrace₂⟩ : ∃ s₂, (if (step + 1) % cfg.retrievalStride = 1 then
      some (waitForBlkTransferTaskDone outside s₁) else some s₁) = some s₂ ∧
      Frame (fun _ => False) s₁ s₂ ∧ s₂.trace = s₁.trace := by
    split_ifs
    · exact ⟨_, rfl, waitForBlkTransferTaskDone_spec outside s₁⟩
    · exact ⟨s₁, rfl, Frame.of_caches s₁.kCache s₁.vCache s₁.preSwapAreaBlockHashes
        s₁.blkTransTasks, rfl⟩
  have hall := hframe.trans hframe₂
  simp only [or_false] at hall
  have hrun : forward cfg outside s (d.reqMeta prompt (step + 1)) d.query = some s₂ := by
    have hend : (step + 1) % cfg.retrievalStride ≠ 0 := by omega
    unfold forward
    rw [attentionBegin_decode h.repre, decodeBegin_eq hstep, hsave, Option.bind_some,
      retrieveGroup_of_ne hend, Option.bind_some, hwait]
    show attentionFinished cfg outside s₂ (d.reqMeta prompt (step + 1)) = _
    rw [attentionFinished_decode, if_neg fun hfinish => hend hfinish.2]
  refine ⟨s₂, hrun, ?_⟩
  have hsaves : s₂.trace = s.trace ++ [_] := htrace₂.trans htrace
  exact
    { repre := hall.repre.trans h.repre
      hashes := hall.hashes.trans h.hashes
      standby := by
        rw [hdiv, hmod]
        intro j hj
        by_cases heq : j = step / cfg.retrievalStride
        · have hstandby₂ := hframe₂.standby (groupRecord cfg (step / cfg.retrievalStride)) id
          rw [if_pos heq, heq, groupOf_congr hstandby₂, State.groupOf, hstandby, Option.getD_some]
        · have hne : ¬ groupRecord cfg j = groupRecord cfg (step / cfg.retrievalStride) :=
            fun h => heq (groupRecord_inj h)
          rw [if_neg heq, groupOf_congr (hall.standby _ hne), h.standby j hj, if_neg heq]
      fresh := by
        rw [hdiv]
        intro j hj
        rw [hframe₂.result _ id, hresult, h.fresh j hj]
      ready := by
        rw [hdiv]
        intro j hj
        refine (h.ready j hj).frame hall fun heq => ?_
        have := groupRecord_inj heq
        omega
      guarded := by
        rw [hsaves]
        exact h.guarded.concat trivial
      looked := by
        rw [hdiv, hsaves, lookUps_append, ← h.looked]
        exact List.append_nil _
      fetched := by
        have hlook : lookUps s₂.trace = lookUps s.trace := by
          rw [hsaves, lookUps_append]
          exact List.append_nil _
        rw [hlook, ← h.fetched, hsaves, fetches_append]
        exact List.append_nil _
      tasks := by
        intro record group task hmem
        rw [hsaves] at hmem
        rcases List.mem_append.mp hmem with hmem | hmem
        · exact h.tasks _ _ _ hmem
        · cases List.mem_singleton.mp hmem }

/-- A state where the next group has been submitted, and what was looked up is as before. -/
structure Submitted (cfg : Config) (prompt : Prompt η) (queryOf : Nat → Q) (n k j : Nat)
    (s s' : State Q η β) : Prop where
  ready : Ready n k s' (groupRecord cfg j)
  frame : Frame (· = groupRecord cfg j) s s'
  guarded : Guarded (Allowed cfg prompt queryOf) s'.trace
  looked : lookUps s'.trace = lookUps s.trace
  fetched : fetches s'.trace = fetches s.trace
  tasks : ∀ record group task, Action.submit record group task ∈ s'.trace → (task = none ↔ k = 0)

theorem Inv.submit [DecidableEq η] (outside : Outside Q η β) {step : Nat}
    (h : Inv cfg prompt queryOf n k step s) (hstride : 2 ≤ cfg.retrievalStride)
    (hend : step % cfg.retrievalStride + 1 = cfg.retrievalStride)
    (hrow : d.query[d.queryStartLoc]? = some (queryOf (prompt.numPromptTokens + step)))
    (hk : k = ⌈cfg.mulSparseRatio n⌉₊)
    (hlength : 0 < k → cfg.initWindowSz + k ≤ d.vllmBlockIds.length) :
    ∃ s', attentionBegin cfg outside s (d.reqMeta prompt (step + 1)) d.query = some s' ∧
      Submitted cfg prompt queryOf n k (step / cfg.retrievalStride) s s' := by
  obtain ⟨hdiv, hmod⟩ := succ_div_mod_of_eq hend
  have hdm := Nat.div_add_mod' step cfg.retrievalStride
  have hstep : 0 < step := by
    have := Nat.mod_le step cfg.retrievalStride
    omega
  have hlast : step + 1 = (step / cfg.retrievalStride + 1) * cfg.retrievalStride := by
    rw [Nat.add_mul, Nat.one_mul]
    omega
  have hgroup := h.standby _ (Nat.le_refl _)
  rw [if_pos rfl] at hgroup
  have hrow' : d.query[d.queryStartLoc]? = some (queryOf (prompt.numPromptTokens +
      step / cfg.retrievalStride * cfg.retrievalStride + step % cfg.retrievalStride)) := by
    rw [hrow, Nat.add_assoc, hdm]
  obtain ⟨s₁, hsave, hframe, htrace, hstandby, hresult⟩ :=
    saveToStandby_spec hgroup (by omega) hrow'
  rw [hend] at hstandby
  obtain ⟨s₂, hretrieve, hready, hframe₂, htrace₂, -⟩ := retrieveGroup_spec (d := d)
    (hframe.repre.trans h.repre) hk hlength hlast hstandby
    (by rw [hresult, h.fresh _ (Nat.le_refl _)])
  have hall := hframe.trans hframe₂
  simp only [or_self] at hall
  have hrun : attentionBegin cfg outside s (d.reqMeta prompt (step + 1)) d.query = some s₂ := by
    rw [attentionBegin_decode h.repre, decodeBegin_eq hstep, hsave, Option.bind_some, hretrieve,
      Option.bind_some, if_neg (by omega)]
  have hguarded : Guarded (Allowed cfg prompt queryOf) s₁.trace := by
    rw [htrace]
    exact h.guarded.concat trivial
  refine ⟨s₂, hrun, ⟨hready, hall, ?_, ?_, ?_, ?_⟩⟩
  · rw [htrace₂]
    exact hguarded.concat allowed_submit
  · rw [htrace₂, htrace, lookUps_append, lookUps_append]
    exact (List.append_nil _).trans (List.append_nil _)
  · rw [htrace₂, htrace, fetches_append, fetches_append]
    exact (List.append_nil _).trans (List.append_nil _)
  · intro record group task hmem
    rw [htrace₂, htrace] at hmem
    rcases List.mem_append.mp hmem with hmem | hmem
    · rcases List.mem_append.mp hmem with hmem | hmem
      · exact h.tasks _ _ _ hmem
      · cases List.mem_singleton.mp hmem
    · obtain ⟨rfl, rfl, rfl⟩ := Action.submit.inj (List.mem_singleton.mp hmem)
      by_cases hzero : k = 0
      · exact iff_of_true (if_pos hzero) hzero
      · rw [if_neg hzero]
        exact iff_of_false (Option.some_ne_none _) hzero

theorem Inv.of_submitted {step : Nat} (h : Inv cfg prompt queryOf n k step s)
    (hj : j = step / cfg.retrievalStride)
    (hend : step % cfg.retrievalStride + 1 = cfg.retrievalStride)
    (hsub : Submitted cfg prompt queryOf n k j s s') {changed : Record → Prop}
    (hframe : Frame changed s' s'') (hchanged : ∀ i, j ≤ i → ¬ changed (groupRecord cfg i))
    (hguarded : Guarded (Allowed cfg prompt queryOf) s''.trace)
    (hlook : lookUps s''.trace = .prefill :: (List.range j).map (groupRecord cfg))
    (hfetch : fetches s''.trace = if k = 0 then [] else lookUps s''.trace)
    (htasks : ∀ record group task, Action.submit record group task ∈ s''.trace →
      Action.submit record group task ∈ s'.trace) :
    Inv cfg prompt queryOf n k (step + 1) s'' := by
  obtain ⟨hdiv, hmod⟩ := succ_div_mod_of_eq hend
  rw [← hj] at hdiv
  have hother : ∀ i, j + 1 ≤ i → ¬ groupRecord cfg i = groupRecord cfg j := by
    intro i hi heq
    have := groupRecord_inj heq
    omega
  exact
    { repre := hframe.repre.trans (hsub.frame.repre.trans h.repre)
      hashes := hframe.hashes.trans (hsub.frame.hashes.trans h.hashes)
      standby := by
        rw [hdiv, hmod]
        intro i hi
        rw [groupOf_congr (hframe.standby _ (hchanged i (by omega))),
          groupOf_congr (hsub.frame.standby _ (hother i hi)), h.standby i (by omega),
          if_neg (by omega), ite_self]
      fresh := by
        rw [hdiv]
        intro i hi
        rw [hframe.result _ (hchanged i (by omega)), hsub.frame.result _ (hother i hi),
          h.fresh i (by omega)]
      ready := by
        rw [hdiv]
        intro i hi
        obtain rfl := Nat.succ.inj hi
        exact hsub.ready.frame hframe (hchanged i (Nat.le_refl _))
      guarded := hguarded
      looked := by rw [hdiv, hlook, Nat.add_sub_cancel]
      fetched := hfetch
      tasks := fun _ _ _ hmem => hsub.tasks _ _ _ (htasks _ _ _ hmem) }

theorem Inv.step_end [DecidableEq η] {step : Nat} (h : Inv cfg prompt queryOf n k step s)
    (hstride : 2 ≤ cfg.retrievalStride)
    (hend : step % cfg.retrievalStride + 1 = cfg.retrievalStride)
    (hrow : d.query[d.queryStartLoc]? = some (queryOf (prompt.numPromptTokens + step)))
    (hk : k = ⌈cfg.mulSparseRatio n⌉₊)
    (hlength : 0 < k → cfg.initWindowSz + k ≤ d.vllmBlockIds.length)
    (hretrieve : RetrieveOk outside)
    (hhashes : 0 < k → n + cfg.initWindowSz ≤ prompt.blockHashes.length) :
    ∃ s', forward cfg outside s (d.reqMeta prompt (step + 1)) d.query = some s' ∧
      Inv cfg prompt queryOf n k (step + 1) s' := by
  obtain ⟨s₂, hbegin, hsub⟩ := h.submit outside hstride hend hrow hk hlength
  obtain ⟨hdiv, hmod⟩ := succ_div_mod_of_eq hend
  have hdm := Nat.div_add_mod' step cfg.retrievalStride
  have hlast : step + 1 = (step / cfg.retrievalStride + 1) * cfg.retrievalStride := by
    rw [Nat.add_mul, Nat.one_mul]
    omega
  unfold forward
  rw [hbegin]
  show ∃ s', attentionFinished cfg outside s₂ (d.reqMeta prompt (step + 1)) = some s' ∧ _
  rw [attentionFinished_decode]
  rcases hj : step / cfg.retrievalStride with _ | j
  · -- The first group: nothing is looked up.
    rw [hj, Nat.zero_add, Nat.one_mul] at hlast
    rw [if_neg (by omega)]
    refine ⟨s₂, rfl, h.of_submitted hj.symm hend (hj ▸ hsub) (Frame.of_caches s₂.kCache s₂.vCache
      s₂.preSwapAreaBlockHashes s₂.blkTransTasks) (fun _ _ => id) hsub.guarded ?_ ?_
      fun _ _ _ => id⟩
    · rw [hsub.looked, h.looked, hj]
    · rw [hsub.looked, hsub.fetched, h.fetched]
  · rw [hj] at hlast hsub
    have htwo : cfg.retrievalStride * 2 ≤ step + 1 := by
      rw [hlast, Nat.mul_comm]
      exact Nat.mul_le_mul_right _ (by omega)
    have hrecord : needRetrieveRecord cfg (step + 2) = groupRecord cfg j :=
      needRetrieveRecord_eq (congrArg (· + 1) hlast)
    obtain ⟨candidates, hcandidates, -⟩ := getRetrieveCandidateBlockIds_spec cfg
      (d.reqMeta prompt (step + 1) : ReqMeta η) (hsub.frame.repre.trans h.repre) hk hlength
    have hready : Ready n k s₂ (groupRecord cfg j) := by
      refine (h.ready j hj.symm).frame hsub.frame fun heq => ?_
      have := groupRecord_inj heq
      omega
    have hhashes₂ : 0 < k → n + cfg.initWindowSz ≤ s₂.blockHashes.length := by
      rw [hsub.frame.hashes, h.hashes]
      exact hhashes
    have hkn : k ≤ n := hk ▸ ceil_mulSparseRatio_le cfg n
    obtain ⟨s₃, l, hload, hframe, htrace, hl⟩ := loadRetrieveResultAsync_spec hrecord
      (.inl Record.noConfusion) hretrieve hkn hhashes₂ hready candidates
    obtain ⟨hlook, hfetch⟩ := lookUps_fetches_append (groupRecord cfg j) s₂.trace hl
    rw [← htrace, hsub.looked, h.looked, hj, Nat.add_sub_cancel] at hlook
    rw [← htrace, hsub.fetched, h.fetched, h.looked, hj, Nat.add_sub_cancel] at hfetch
    rw [if_pos ⟨htwo, hmod⟩, hcandidates]
    refine ⟨s₃, hload, h.of_submitted hj.symm hend hsub hframe ?_ ?_ ?_ ?_ ?_⟩
    · intro i hi heq
      have := groupRecord_inj heq
      omega
    · rw [htrace]
      exact guarded_lookUp hready hsub.guarded hl
    · rw [hlook, List.range_succ, List.map_append]
      rfl
    · rw [hlook, hfetch]
      split_ifs
      · rfl
      · rfl
    · intro record group task hmem
      rw [htrace] at hmem
      exact mem_trace_lookUp hl hmem

/-! ## The first decode step -/

/-- Queries have been put aside, and nothing else has happened. -/
def OnlySaves (trace : List (Action Q)) : Prop :=
  ∀ a ∈ trace, ∃ record slot query, a = Action.save record slot query

theorem OnlySaves.guarded (cfg : Config) (prompt : Prompt η) (queryOf : Nat → Q)
    (h : OnlySaves trace) :
    Guarded (Allowed cfg prompt queryOf) trace := by
  refine guarded_of_forall fun a ha pre => ?_
  obtain ⟨record, slot, query, rfl⟩ := h a ha
  exact trivial

theorem OnlySaves.no_lookUps (h : OnlySaves trace) :
    lookUps trace = [] ∧ fetches trace = [] := by
  constructor
  · refine List.filterMap_eq_nil_iff.mpr fun a ha => ?_
    obtain ⟨record, slot, query, rfl⟩ := h a ha
    rfl
  · refine List.filterMap_eq_nil_iff.mpr fun a ha => ?_
    obtain ⟨record, slot, query, rfl⟩ := h a ha
    rfl

theorem OnlySaves.no_submit (h : OnlySaves trace) :
    Action.submit record group task ∉ trace := by
  intro hmem
  obtain ⟨_, _, _, heq⟩ := h _ hmem
  cases heq

/-- Before the first decode step. -/
structure Start (prompt : Prompt η) (n : Nat) (s : State Q η β) : Prop where
  repre : s.blkRepre = some n
  hashes : s.blockHashes = prompt.blockHashes
  group : ∃ group, s.standbyQueryGroup .prefill = some group ∧ group.filterMap id ≠ []
  standby : ∀ r, r ≠ .prefill → s.standbyQueryGroup r = none
  fresh : ∀ r, s.stepGroupRetrieveResult r = none
  saves : OnlySaves s.trace

theorem decodeBegin_one [DecidableEq η] (hstride : 2 ≤ cfg.retrievalStride) :
    decodeBegin cfg outside s (d.reqMeta prompt 1) d.query =
      (saveToStandby cfg s (groupRecord cfg 0) (0 : Nat) d.queryStartLoc d.query).bind fun s =>
      (beginDecode cfg outside s (d.reqMeta prompt 1)).bind fun s =>
      some (waitForBlkTransferTaskDone outside s) := by
  have hmod : 1 % cfg.retrievalStride = 1 := Nat.mod_eq_of_lt hstride
  have hmod' : 0 % cfg.retrievalStride = 0 := Nat.zero_mod _
  have hdiv : 0 / cfg.retrievalStride = 0 := Nat.zero_div _
  have hrecord : getDecodeStepRecord cfg (d.reqMeta prompt 1 : ReqMeta η) =
      (groupRecord cfg 0, 0) := by
    show (Record.decode ((0 / cfg.retrievalStride * cfg.retrievalStride + 1 : Nat) : Int),
      0 % cfg.retrievalStride) = _
    rw [hdiv, hmod']
    rfl
  have hgroup : ∀ s : State Q η β, retrieveGroup cfg s (d.reqMeta prompt 1 : ReqMeta η) = some s :=
    fun s => retrieveGroup_of_ne (by rw [hmod]; exact Nat.one_ne_zero)
  unfold decodeBegin
  simp only [hrecord, hgroup]
  show ((saveToStandby cfg s (groupRecord cfg 0) (0 : Nat) d.queryStartLoc d.query).bind fun s =>
    (beginDecode cfg outside s (d.reqMeta prompt 1)).bind fun s =>
    if 1 % cfg.retrievalStride = 1 then _ else _) = _
  simp only [if_pos hmod]

theorem Start.step [DecidableEq η] (outside : Outside Q η β) (h : Start prompt n s)
    (hstride : 2 ≤ cfg.retrievalStride)
    (hrow : d.query[d.queryStartLoc]? = some (queryOf prompt.numPromptTokens))
    (hk : k = ⌈cfg.mulSparseRatio n⌉₊)
    (hlength : 0 < k → cfg.initWindowSz + k ≤ d.vllmBlockIds.length)
    (hretrieve : RetrieveOk outside)
    (hhashes : 0 < k → n + cfg.initWindowSz ≤ prompt.blockHashes.length)
    (hfit : ∀ σ : State Q η β, σ.initWindow = s.initWindow → σ.localWindow = s.localWindow →
      (prepareInitAndLocalWindow cfg σ (d.reqMeta prompt 1 : ReqMeta η)).isSome) :
    ∃ s', forward cfg outside s (d.reqMeta prompt 1) d.query = some s' ∧
      Inv cfg prompt queryOf n k 1 s' := by
  have hgroup : s.groupOf cfg (groupRecord cfg 0) = groupWith cfg prompt queryOf 0 0 := by
    rw [State.groupOf, h.standby _ Record.noConfusion, groupWith_zero]
    rfl
  have hrow' : d.query[d.queryStartLoc]? =
      some (queryOf (prompt.numPromptTokens + 0 * cfg.retrievalStride + 0)) := by
    rw [hrow, Nat.zero_mul]
    rfl
  obtain ⟨s₁, hsave, hframe₁, htrace₁, hstandby₁, hresult₁⟩ :=
    saveToStandby_spec hgroup cfg.retrievalStride_pos hrow'
  obtain ⟨s₂, hprepare⟩ :=
    Option.isSome_iff_exists.mp (hfit s₁ hframe₁.initWindow hframe₁.localWindow)
  obtain ⟨hframe₂, htrace₂⟩ := prepareInitAndLocalWindow_spec hprepare
  obtain ⟨hframe₃, htrace₃⟩ := waitForBlkTransferTaskDone_spec outside s₂
  have hframe := (hframe₁.trans hframe₂).trans hframe₃
  simp only [or_false] at hframe
  obtain ⟨candidates, hcandidates, hnum⟩ := getRetrieveCandidateBlockIds_spec cfg
    (d.reqMeta prompt 1 : ReqMeta η)
    (hframe₂.repre.trans (hframe₁.repre.trans h.repre)) hk hlength
  obtain ⟨group, hprompt, hne⟩ := h.group
  have hrepre₃ := hframe.repre.trans h.repre
  obtain ⟨s₄, hasync, hready, hframe₄, htrace₄, hstandby₄⟩ := retrievalAsync_spec (k := k)
    (show getRetrieveRecord cfg 1 = .prefill from rfl) hrepre₃
    ((hframe.standby _ Record.noConfusion).trans hprompt) hne
    ((hframe.result _ Record.noConfusion).trans (h.fresh _))
  have hneed : needRetrieveRecord cfg 1 = .prefill := if_pos (by omega)
  have hhashes₄ : 0 < k → n + cfg.initWindowSz ≤ s₄.blockHashes.length := by
    rw [hframe₄.hashes, hframe.hashes, h.hashes]
    exact hhashes
  have hkn : k ≤ n := hk ▸ ceil_mulSparseRatio_le cfg n
  obtain ⟨s₅, l, hload, hframe₅, htrace₅, hl⟩ := loadRetrieveResultAsync_spec hneed
    (.inr rfl) hretrieve hkn hhashes₄ hready candidates
  obtain ⟨hframe₆, htrace₆⟩ := waitForBlkTransferTaskDone_spec outside s₅
  have hrun : forward cfg outside s (d.reqMeta prompt 1) d.query =
      some (waitForBlkTransferTaskDone outside s₅) := by
    have hbegin : beginDecode cfg outside s₁ (d.reqMeta prompt 1) = some s₅ := by
      unfold beginDecode
      rw [if_pos (show (d.reqMeta prompt 1 : ReqMeta η).step = 1 from rfl), hprepare]
      show (getRetrieveCandidateBlockIds cfg s₂ (d.reqMeta prompt 1 : ReqMeta η)).bind _ = _
      rw [hcandidates, Option.bind_some, hnum]
      show (retrievalAsync cfg (waitForBlkTransferTaskDone outside s₂) 1 k).bind _ = _
      rw [hasync]
      exact hload
    unfold forward
    rw [attentionBegin_decode h.repre, decodeBegin_one hstride, hsave, Option.bind_some, hbegin,
      Option.bind_some]
    show attentionFinished cfg outside _ (d.reqMeta prompt (0 + 1)) = _
    rw [attentionFinished_decode, if_neg (by omega)]
  -- The records of the decode steps are not touched after the query has been put aside.
  have hlater := (((hframe₂.trans hframe₃).trans hframe₄).trans hframe₅).trans hframe₆
  simp only [or_false, false_or, or_self] at hlater
  have htrace : (waitForBlkTransferTaskDone outside s₂).trace = s.trace ++ [_] :=
    htrace₃.trans (htrace₂.trans htrace₁)
  have hguarded₃ : Guarded (Allowed cfg prompt queryOf)
      (waitForBlkTransferTaskDone outside s₂).trace := by
    rw [htrace]
    exact (h.saves.guarded cfg prompt queryOf).concat trivial
  have hguarded : Guarded (Allowed cfg prompt queryOf) s₄.trace := by
    rw [htrace₄]
    exact hguarded₃.concat trivial
  obtain ⟨hnone, hnone'⟩ := h.saves.no_lookUps
  obtain ⟨hlook, hfetch⟩ := lookUps_fetches_append .prefill s₄.trace hl
  rw [← htrace₅, ← htrace₆, htrace₄, htrace, lookUps_append, lookUps_append, hnone] at hlook
  rw [← htrace₅, ← htrace₆, htrace₄, htrace, fetches_append, fetches_append, hnone'] at hfetch
  have hdiv : 1 / cfg.retrievalStride = 0 := Nat.div_eq_of_lt hstride
  have hmod : 1 % cfg.retrievalStride = 1 := Nat.mod_eq_of_lt hstride
  refine ⟨_, hrun, ?_⟩
  exact
    { repre := hlater.repre.trans (hframe₁.repre.trans h.repre)
      hashes := hlater.hashes.trans (hframe₁.hashes.trans h.hashes)
      standby := by
        rw [hdiv, hmod]
        intro j _
        rw [groupOf_congr (hlater.standby _ Record.noConfusion)]
        by_cases heq : j = 0
        · rw [if_pos heq, heq, State.groupOf, hstandby₁, Option.getD_some]
        · rw [if_neg heq, groupOf_congr (hframe₁.standby _ fun hr => heq (groupRecord_inj hr)),
            State.groupOf, h.standby _ Record.noConfusion, groupWith_zero, Option.getD_none]
      fresh := by
        intro j _
        rw [hlater.result _ Record.noConfusion, hresult₁, h.fresh]
      ready := by
        rw [hdiv]
        intro j hj
        cases hj
      guarded := by
        rw [htrace₆, htrace₅]
        exact guarded_lookUp hready hguarded hl
      looked := by
        rw [hlook, hdiv]
        rfl
      fetched := by
        rw [hlook, hfetch]
        split_ifs
        · rfl
        · rfl
      tasks := by
        intro record group' task hmem
        rw [htrace₆, htrace₅] at hmem
        have hmem := mem_trace_lookUp hl hmem
        rw [htrace₄, htrace] at hmem
        rcases List.mem_append.mp hmem with hmem | hmem
        · rcases List.mem_append.mp hmem with hmem | hmem
          · exact absurd hmem h.saves.no_submit
          · cases List.mem_singleton.mp hmem
        · obtain ⟨rfl, rfl, rfl⟩ := Action.submit.inj (List.mem_singleton.mp hmem)
          by_cases hzero : k = 0
          · exact iff_of_true (if_pos hzero) hzero
          · rw [if_neg hzero]
            exact iff_of_false (Option.some_ne_none _) hzero }

/-! ## Runs -/

/-- The rows of the decode steps are the queries of the tokens from `step` after the prompt on. -/
def StepsRead (prompt : Prompt η) (queryOf : Nat → Q) (step : Nat) (ds : List (DecodeStep Q)) : Prop :=
  ∀ i d, ds[i]? = some d →
    d.query[d.queryStartLoc]? = some (queryOf (prompt.numPromptTokens + (step + i)))

variable {ds : List (DecodeStep Q)}

theorem StepsRead.tail {step : Nat} (h : StepsRead prompt queryOf step (d :: ds)) :
    StepsRead prompt queryOf (step + 1) ds := by
  intro i d' hd
  rw [h (i + 1) d' hd, Nat.add_right_comm, Nat.add_assoc step i 1]

/-- **Decode steps after the first one do not raise, and the invariant holds after them.** -/
theorem Inv.run [DecidableEq η] (outside : Outside Q η β) {step : Nat}
    (h : Inv cfg prompt queryOf n k step s) (hstep : 0 < step) (hstride : 2 ≤ cfg.retrievalStride)
    (hrows : StepsRead prompt queryOf step ds) (hk : k = ⌈cfg.mulSparseRatio n⌉₊)
    (hlength : ∀ d ∈ ds, 0 < k → cfg.initWindowSz + k ≤ d.vllmBlockIds.length)
    (hretrieve : RetrieveOk outside)
    (hhashes : 0 < k → n + cfg.initWindowSz ≤ prompt.blockHashes.length) :
    ∃ s', decode cfg outside prompt s (step + 1) ds = some s' ∧
      Inv cfg prompt queryOf n k (step + ds.length) s' := by
  induction ds generalizing s step with
  | nil => exact ⟨s, rfl, h⟩
  | cons d ds ih =>
    have hrow := hrows 0 d rfl
    rw [Nat.add_zero] at hrow
    have hmod := Nat.mod_lt step cfg.retrievalStride_pos
    obtain ⟨s₁, hforward, hinv⟩ : ∃ s', forward cfg outside s (d.reqMeta prompt (step + 1)) d.query =
        some s' ∧ Inv cfg prompt queryOf n k (step + 1) s' := by
      by_cases hend : step % cfg.retrievalStride + 1 = cfg.retrievalStride
      · exact h.step_end hstride hend hrow hk (hlength d List.mem_cons_self) hretrieve hhashes
      · exact h.step_middle hstep (by omega) hrow
    obtain ⟨s', hrun, hinv'⟩ := ih hinv (Nat.succ_pos step) hrows.tail
      fun d' hd => hlength d' (List.mem_cons_of_mem _ hd)
    refine ⟨s', ?_, ?_⟩
    · unfold decode
      rw [hforward]
      exact hrun
    · rwa [List.length_cons, Nat.add_comm ds.length 1, ← Nat.add_assoc]

theorem saves_prefilled {c : Nat} (hnew : s = State.new s.kCache s.vCache) :
    OnlySaves (prefilled cfg prompt queryOf s c table).trace := by
  intro a ha
  change a ∈ ((lastTokens cfg prompt (List.range' c (prompt.numPromptTokens - c))).foldl
    (putQuery cfg prompt queryOf) s).trace at ha
  rw [trace_foldl_putQuery, hnew] at ha
  obtain ⟨t, -, rfl⟩ := List.mem_map.mp ha
  exact ⟨_, _, _, rfl⟩

theorem start_prefilled {c : Nat} (hnew : s = State.new s.kCache s.vCache)
    (hcomputed : c < prompt.numPromptTokens) (hrepr : reprRows cfg prompt table = some n) :
    Start prompt n (prefilled cfg prompt queryOf s c table) := by
  have hlast := last_mem_lastTokens cfg hcomputed
  have hstandby : s.standbyQueryGroup = fun _ => none := by
    rw [hnew]
    rfl
  have hlength : (s.groupOf cfg .prefill).length = cfg.retrievalStride :=
    length_groupOf_of_none (congrFun hstandby .prefill)
  have hslot := groupOf_foldl_putQuery queryOf (nodup_lastTokens _ _)
    (fun t ht => ⟨(mem_lastTokens_iff.mp ht).2, (mem_lastTokens_iff.mp ht).1.2⟩) hlength hlast
  exact
    { repre := hrepr
      hashes := rfl
      group := by
        refine ⟨_, foldl_putQuery_standby (List.ne_nil_of_mem hlast), List.ne_nil_of_mem (a := ?_) ?_⟩
        · exact queryOf (prompt.numPromptTokens - 1)
        · exact List.mem_filterMap.mpr ⟨_, List.mem_of_getElem? hslot, rfl⟩
      standby := by
        intro r hr
        refine (foldl_putQuery_standby_of_ne hr _).trans ?_
        rw [hstandby]
      fresh := by
        intro r
        show ((lastTokens cfg prompt (List.range' c (prompt.numPromptTokens - c))).foldl
          (putQuery cfg prompt queryOf) s).stepGroupRetrieveResult r = none
        rw [foldl_putQuery_eq, hnew]
        rfl
      saves := saves_prefilled hnew }

/-- Without a representation a decode step does nothing until two groups are over, and then it raises:
`attention_finished` does not look whether there is one. -/
theorem decode_of_none [DecidableEq η] {step : Nat} (hrepre : s.blkRepre = none)
    (hstep : step ≤ cfg.retrievalStride * 2) (hpos : 0 < step) :
    decode cfg outside prompt s step ds =
      if step + ds.length ≤ cfg.retrievalStride * 2 then some s else none := by
  induction ds generalizing step with
  | nil => rw [decode, List.length_nil, Nat.add_zero, if_pos hstep]
  | cons d ds ih =>
    obtain ⟨i, rfl⟩ := Nat.exists_eq_add_of_lt hpos
    rw [Nat.zero_add] at hstep ⊢
    have hstage : ¬ (d.reqMeta prompt (i + 1)).stage = .prefill := by
      show ¬ (if 0 < i + 1 then ReqStage.decode else .prefill) = .prefill
      rw [if_pos (Nat.succ_pos i)]
      exact ReqStage.noConfusion
    have hbegin : attentionBegin cfg outside s (d.reqMeta prompt (i + 1)) d.query = some s := by
      have hnone : s.blkRepre.isNone = true := by
        rw [hrepre]
        rfl
      rw [attentionBegin, if_neg hstage, if_pos hnone]
    unfold decode forward
    rw [hbegin]
    show ((attentionFinished cfg outside s (d.reqMeta prompt (i + 1))).bind fun s => _) = _
    rw [attentionFinished_decode, List.length_cons]
    by_cases hfinish : cfg.retrievalStride * 2 ≤ i + 1
    · have hend : i + 1 = cfg.retrievalStride * 2 := by omega
      have hmod : (i + 1) % cfg.retrievalStride = 0 := by rw [hend, Nat.mul_mod_right]
      have hnone : getRetrieveCandidateBlockIds cfg s (d.reqMeta prompt (i + 1) : ReqMeta η) =
          none := by rw [getRetrieveCandidateBlockIds, hrepre, Option.map_none]
      rw [if_pos ⟨hfinish, hmod⟩, hnone, if_neg (by omega)]
      rfl
    · rw [if_neg fun h => hfinish h.1, Option.bind_some, ih (by omega) (Nat.succ_pos _)]
      congr 1
      rw [eq_iff_iff]
      omega

/-! ## The schedule -/

/-- What the history of a request should be like. -/
structure OnSchedule (cfg : Config) (prompt : Prompt η) (queryOf : Nat → Q)
    (trace : List (Action Q)) : Prop where
  /-- A record that is looked up has been submitted before. -/
  submitted : ∀ pre record post, trace = pre ++ .lookUp record :: post →
    ∃ group task, Action.submit record group task ∈ pre
  /-- The result of its task is fetched once. Without blocks to choose there is no task, and the result is
  there at once. -/
  fetchedOnce : ∀ record group task, Action.lookUp record ∈ trace →
    Action.submit record group task ∈ trace →
    (fetches trace).count record = if task.isSome then 1 else 0
  /-- It is the result of a task of this record. -/
  fetchedFrom : ∀ pre record id post, trace = pre ++ .fetch record id :: post →
    ∃ group, Action.submit record group (some id) ∈ pre
  /-- The record of step `d` has the queries of the steps from `d` on, one for each slot. -/
  groups : ∀ step group task, Action.submit (.decode step) group task ∈ trace →
    ∃ d : Nat, step = d ∧ 1 ≤ d ∧ group = some ((List.range cfg.retrievalStride).map fun i =>
      some (queryOf (prompt.numPromptTokens + (d + i) - 1)))

theorem groups_of_guarded (h : Guarded (Allowed cfg prompt queryOf) trace) {step : Int}
    (hmem : Action.submit (.decode step) group task ∈ trace) :
    ∃ d : Nat, step = d ∧ 1 ≤ d ∧ group = some ((List.range cfg.retrievalStride).map fun i =>
      some (queryOf (prompt.numPromptTokens + (d + i) - 1))) := by
  obtain ⟨pre, post, heq⟩ := List.append_of_mem hmem
  exact h pre _ post heq

theorem Inv.onSchedule {step : Nat} (h : Inv cfg prompt queryOf n k step s) :
    OnSchedule cfg prompt queryOf s.trace where
  submitted pre _ post heq := h.guarded pre _ post heq
  fetchedOnce := by
    intro record group task hlook hsubmit
    have hmem : record ∈ lookUps s.trace := List.mem_filterMap.mpr ⟨_, hlook, rfl⟩
    have hnodup : (lookUps s.trace).Nodup := by
      rw [h.looked, List.nodup_cons]
      refine ⟨fun hprefill => ?_, List.Nodup.map (fun i j => groupRecord_inj) List.nodup_range⟩
      obtain ⟨_, -, heq⟩ := List.mem_map.mp hprefill
      cases heq
    have htask := h.tasks _ _ _ hsubmit
    rw [h.fetched]
    cases task with
    | none => rw [if_pos (htask.mp rfl)]; rfl
    | some id =>
      rw [if_neg fun hzero => Option.some_ne_none id (htask.mpr hzero),
        List.count_eq_one_of_mem hnodup hmem]
      rfl
  fetchedFrom pre _ _ post heq := h.guarded pre _ post heq
  groups _ _ _ hmem := groups_of_guarded h.guarded hmem

theorem OnlySaves.onSchedule (h : OnlySaves trace) :
    OnSchedule cfg prompt queryOf trace where
  submitted pre _ post heq := h.guarded cfg prompt queryOf pre _ post heq
  fetchedOnce _ _ _ _ hsubmit := absurd hsubmit h.no_submit
  fetchedFrom pre _ _ post heq := h.guarded cfg prompt queryOf pre _ post heq
  groups _ _ _ hmem := absurd hmem h.no_submit

/-- A request: its prefill and its decode steps. -/
def runRequest [DecidableEq η] (cfg : Config) (outside : Outside Q η β) (prompt : Prompt η)
    (kCache vCache : Nat → β) (c : Nat) (chunks : List (Chunk Q)) (ds : List (DecodeStep Q)) :
    Option (State Q η β) :=
  (prefill cfg outside prompt (State.new kCache vCache) c chunks).bind fun s =>
    decode cfg outside prompt s 1 ds

theorem runRequest_eq [DecidableEq η] {kCache vCache : Nat → β} {c : Nat} {chunks : List (Chunk Q)}
    (hprefills : Prefills cfg prompt queryOf c chunks table)
    (hlong : cfg.blockSize < prompt.numPromptTokens) :
    runRequest cfg outside prompt kCache vCache c chunks ds =
      decode cfg outside prompt
        (prefilled cfg prompt queryOf (State.new kCache vCache) c table) 1 ds := by
  rw [runRequest, prefill_eq hprefills (length_groupOf_of_none rfl)
    (fun h => absurd h Bool.false_ne_true) hlong.le, Option.bind_some]

theorem topk_bounds {step : Nat} (hscheduled : Scheduled cfg prompt table step ds)
    (hstep : 0 < step) (hhashes : fullyBlk cfg prompt ≤ prompt.blockHashes.length)
    (hk : k = ⌈cfg.mulSparseRatio (innerBlocks cfg (fullyBlk cfg prompt))⌉₊) (hpos : 0 < k) :
    innerBlocks cfg (fullyBlk cfg prompt) + cfg.initWindowSz ≤ prompt.blockHashes.length ∧
      ∀ d ∈ ds, cfg.initWindowSz + k ≤ d.vllmBlockIds.length := by
  have hle : k ≤ innerBlocks cfg (fullyBlk cfg prompt) := hk ▸ ceil_mulSparseRatio_le cfg _
  have hinner : innerBlocks cfg (fullyBlk cfg prompt) =
      fullyBlk cfg prompt - keepFixedBlk cfg prompt ∧
      cfg.initWindowSz + innerBlocks cfg (fullyBlk cfg prompt) ≤ fullyBlk cfg prompt ∧
      cfg.initWindowSz ≤ keepFixedBlk cfg prompt := by
    unfold innerBlocks keepFixedBlk at *
    split_ifs at * <;> omega
  have hsaved : savedFullyBlk cfg prompt = k := by
    rw [hk, hinner.1]
    rfl
  refine ⟨by omega, fun d hd => ?_⟩
  have := hscheduled.le_length hstep hd
  omega

/-- **A request is on schedule exactly when its blocks have a representation, or less than two groups of
decode steps, and, if they have one, the windows fit into the first table.** -/
theorem onSchedule_iff [DecidableEq η] (cfg : Config) (outside : Outside Q η β) (prompt : Prompt η)
    (queryOf : Nat → Q) (table : List Nat) (kCache vCache : Nat → β) (c : Nat)
    (chunks : List (Chunk Q)) (ds : List (DecodeStep Q)) (hstride : 2 ≤ cfg.retrievalStride)
    (hlong : cfg.blockSize < prompt.numPromptTokens)
    (hhashes : prompt.numPromptTokens / cfg.blockSize ≤ prompt.blockHashes.length)
    (hretrieve : RetrieveOk outside) (hprefills : Prefills cfg prompt queryOf c chunks table)
    (hscheduled : Scheduled cfg prompt table 1 ds) (hrows : StepsRead prompt queryOf 0 ds) :
    (∃ s', runRequest cfg outside prompt kCache vCache c chunks ds = some s' ∧
      OnSchedule cfg prompt queryOf s'.trace) ↔
    (HasRepre cfg prompt table ∨ ds.length < cfg.retrievalStride * 2) ∧
      (HasRepre cfg prompt table → ds ≠ [] → WindowsFit cfg prompt) := by
  rw [runRequest_eq hprefills hlong]
  by_cases hrepre : HasRepre cfg prompt table
  · have hrows' : reprRows cfg prompt table = some (innerBlocks cfg (fullyBlk cfg prompt)) :=
      if_pos hrepre
    have hstart : Start prompt _
        (prefilled cfg prompt queryOf (State.new kCache vCache : State Q η β) c table) :=
      start_prefilled rfl hprefills.computed hrows'
    have hiff : (HasRepre cfg prompt table ∨ ds.length < cfg.retrievalStride * 2) ∧
        (HasRepre cfg prompt table → ds ≠ [] → WindowsFit cfg prompt) ↔
        (ds ≠ [] → WindowsFit cfg prompt) :=
      ⟨fun h => h.2 hrepre, fun h => ⟨.inl hrepre, fun _ => h⟩⟩
    rw [hiff]
    cases ds with
    | nil => exact ⟨fun _ h => absurd rfl h, fun _ => ⟨_, rfl, hstart.saves.onSchedule⟩⟩
    | cons d ds =>
      have hbounds := fun hpos => topk_bounds hscheduled Nat.one_pos hhashes rfl hpos
      have hlength := hscheduled.length Nat.one_pos (i := 0) rfl
      have hsaved := savedFullyBlk_le cfg prompt
      have hfixed : keepFixedBlk cfg prompt ≤ fullyBlk cfg prompt := Nat.min_le_right _ _
      rw [Nat.add_zero, succ_ceilDiv] at hlength
      have hfit : ∀ σ : State Q η β,
          σ.initWindow = (prefilled cfg prompt queryOf (State.new kCache vCache) c table).initWindow →
          σ.localWindow = (prefilled cfg prompt queryOf (State.new kCache vCache) c table).localWindow →
          ((prepareInitAndLocalWindow cfg σ (d.reqMeta prompt 1 : ReqMeta η)).isSome ↔
            WindowsFit cfg prompt) := fun σ hinit hloc =>
        prepare_prefilled_isSome_iff (s := State.new kCache vCache) rfl hinit hloc hprefills.length
          (show d.vllmBlockIds.length = _ by omega) hrepre.1
      have hrow := hrows 0 d rfl
      rw [Nat.add_zero] at hrow
      constructor
      · rintro ⟨s', hrun, -⟩ -
        obtain ⟨s₁, hforward, -⟩ := Option.bind_eq_some_iff.mp hrun
        obtain ⟨s₂, hbegin, -⟩ := Option.bind_eq_some_iff.mp hforward
        rw [attentionBegin_decode hstart.repre, decodeBegin_one hstride] at hbegin
        obtain ⟨s₃, hsave, hbegin⟩ := Option.bind_eq_some_iff.mp hbegin
        obtain ⟨s₄, hbegin, -⟩ := Option.bind_eq_some_iff.mp hbegin
        unfold beginDecode at hbegin
        rw [if_pos (show (d.reqMeta prompt 1 : ReqMeta η).step = 1 from rfl)] at hbegin
        obtain ⟨s₅, hprepare, -⟩ := Option.bind_eq_some_iff.mp hbegin
        have hgroup : (prefilled cfg prompt queryOf (State.new kCache vCache) c table).groupOf cfg
            (groupRecord cfg 0) = groupWith cfg prompt queryOf 0 0 := by
          rw [State.groupOf, hstart.standby _ Record.noConfusion, groupWith_zero]
          rfl
        obtain ⟨s₃', hsave', hframe, -⟩ := saveToStandby_spec hgroup cfg.retrievalStride_pos
          (show d.query[d.queryStartLoc]? = _ by rw [hrow, Nat.zero_mul]; rfl)
        obtain rfl := Option.some.inj (hsave'.symm.trans hsave)
        exact (hfit s₃' hframe.initWindow hframe.localWindow).mp
          (Option.isSome_iff_exists.mpr ⟨_, hprepare⟩)
      · intro hwindows
        have hwindows := hwindows (List.cons_ne_nil _ _)
        obtain ⟨s₁, hforward, hinv⟩ := hstart.step outside hstride hrow rfl
          (fun hpos => (hbounds hpos).2 d List.mem_cons_self) hretrieve
          (fun hpos => (hbounds hpos).1) (fun σ hinit hloc => (hfit σ hinit hloc).mpr hwindows)
        obtain ⟨s', hrun, hinv'⟩ := hinv.run outside Nat.one_pos hstride hrows.tail rfl
          (fun d' hd hpos => (hbounds hpos).2 d' (List.mem_cons_of_mem _ hd)) hretrieve
          (fun hpos => (hbounds hpos).1)
        refine ⟨s', ?_, hinv'.onSchedule⟩
        unfold decode
        rw [hforward]
        exact hrun
  · have hnone : (prefilled cfg prompt queryOf (State.new kCache vCache : State Q η β) c
        table).blkRepre = none := if_neg hrepre
    have hstride' := cfg.retrievalStride_pos
    rw [decode_of_none hnone (by omega) Nat.one_pos]
    constructor
    · rintro ⟨s', hrun, -⟩
      split_ifs at hrun with hshort
      exact ⟨.inr (by omega), fun h => absurd h hrepre⟩
    · rintro ⟨hor, -⟩
      have hshort := hor.resolve_left hrepre
      rw [if_pos (by omega)]
      exact ⟨_, rfl, (saves_prefilled rfl).onSchedule⟩

/-- The retrieval that chooses the first blocks. -/
def retrieveFirst : Outside Nat Nat Unit where
  keyData _ := ()
  valueData _ := ()
  retrieve task := some (List.range task.topk)

theorem retrieveOk_retrieveFirst : RetrieveOk retrieveFirst := by
  intro task _ _ hle
  refine ⟨_, rfl, List.length_range, fun i hi => ?_⟩
  have := List.mem_range.mp hi
  omega

/-- Five decode steps after a prompt of four tokens, with blocks of one token. -/
def fiveSteps : List (DecodeStep Nat) :=
  [⟨[2, 3, 4, 5], 0, [4]⟩, ⟨[2, 3, 4, 5, 6], 0, [5]⟩, ⟨[2, 3, 4, 5, 6, 7], 0, [6]⟩,
    ⟨[2, 3, 4, 5, 6, 7, 8], 0, [7]⟩, ⟨[2, 3, 4, 5, 6, 7, 8, 9], 0, [8]⟩]

/-- A prompt of four blocks: two groups of decode steps are submitted, and the fourth step looks up what
has been retrieved for the first of them. -/
theorem onSchedule_iff_four_blocks :
    ∃ s', runRequest (.half 1 2 Nat.one_pos Nat.two_pos)
      retrieveFirst ⟨4, [10, 11, 12, 13]⟩ (fun _ => ()) (fun _ => ()) 0
      [⟨4, [2, 3, 4, 5], 0, [0, 1, 2, 3]⟩] fiveSteps = some s' ∧
      OnSchedule (.half 1 2 Nat.one_pos Nat.two_pos) (⟨4, [10, 11, 12, 13]⟩ : Prompt Nat) id
        s'.trace := by
  refine (onSchedule_iff (.half 1 2 Nat.one_pos Nat.two_pos)
    retrieveFirst ⟨4, [10, 11, 12, 13]⟩ id [2, 3, 4, 5] (fun _ => ()) (fun _ => ()) 0
    [⟨4, [2, 3, 4, 5], 0, [0, 1, 2, 3]⟩] fiveSteps (by decide) (by decide) (by decide)
    retrieveOk_retrieveFirst
    ⟨by decide, ⟨by unfold Chunk.Reads; decide, rfl⟩, by decide, rfl, by decide⟩
    ⟨⟨[], by decide +kernel⟩, ⟨[6], by decide +kernel⟩, ⟨[7], by decide +kernel⟩,
      ⟨[8], by decide +kernel⟩, ⟨[9], by decide +kernel⟩, trivial⟩ ?_).mpr
    ⟨.inl ⟨by decide, by decide⟩, fun _ _ => .inl (by decide)⟩
  intro i d hd
  rcases i with _ | _ | _ | _ | _ | i
  · obtain rfl := Option.some.inj hd; rfl
  · obtain rfl := Option.some.inj hd; rfl
  · obtain rfl := Option.some.inj hd; rfl
  · obtain rfl := Option.some.inj hd; rfl
  · obtain rfl := Option.some.inj hd; rfl
  · cases hd

/-- Two full blocks and two groups of decode steps: the fourth step raises. -/
theorem not_onSchedule_two_blocks :
    ¬ ∀ (cfg : Config) (outside : Outside Nat Nat Unit) (prompt : Prompt Nat) (queryOf : Nat → Nat)
      (table : List Nat) (kCache vCache : Nat → Unit) (c : Nat) (chunks : List (Chunk Nat))
      (ds : List (DecodeStep Nat)), 2 ≤ cfg.retrievalStride →
      cfg.blockSize < prompt.numPromptTokens →
      prompt.numPromptTokens / cfg.blockSize ≤ prompt.blockHashes.length → RetrieveOk outside →
      Prefills cfg prompt queryOf c chunks table → Scheduled cfg prompt table 1 ds →
      StepsRead prompt queryOf 0 ds →
      ∃ s', runRequest cfg outside prompt kCache vCache c chunks ds = some s' ∧
        OnSchedule cfg prompt queryOf s'.trace := by
  intro h
  obtain ⟨s', hrun, -⟩ := h
    (.half 2 2 Nat.two_pos Nat.two_pos) retrieveFirst
    ⟨5, [10, 11]⟩ id [2, 3, 4] (fun _ => ()) (fun _ => ()) 0
    [⟨5, [2, 3, 4], 0, [0, 1, 2, 3, 4]⟩]
    [⟨[2, 3, 4], 0, [5]⟩, ⟨[2, 3, 4, 5], 0, [6]⟩, ⟨[2, 3, 4, 5], 0, [7]⟩, ⟨[2, 3, 4, 5, 6], 0, [8]⟩]
    (by decide) (by decide) (by decide) retrieveOk_retrieveFirst
    ⟨by decide, ⟨by unfold Chunk.Reads; decide, rfl⟩, by decide, rfl, by decide⟩
    ⟨⟨[], by decide +kernel⟩, ⟨[5], by decide +kernel⟩, ⟨[], by decide +kernel⟩,
      ⟨[6], by decide +kernel⟩, trivial⟩ (by
        intro i d hd
        rcases i with _ | _ | _ | _ | i
        · obtain rfl := Option.some.inj hd; rfl
        · obtain rfl := Option.some.inj hd; rfl
        · obtain rfl := Option.some.inj hd; rfl
        · obtain rfl := Option.some.inj hd; rfl
        · cases hd)
  cases hrun

end UnifiedCache.Kvstar
