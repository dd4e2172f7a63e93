import UnifiedCache.Connector.Proofs.LayerWiseProofs

/-!
# What the layer-wise connector saves

`wait_for_save` leaves nothing behind for the next step, but a wait that fails ends its loop: every
dump task is waited for exactly when no wait but the last one fails (`save_done_iff`).
-/

open Lib

namespace UnifiedCache.Connector

variable {η : Type}

/-! ## What is dumped -/

/-- The ids `save_kv_layer` leaves at a layer. -/
def WorkerConfig.rewriteDumpIds (cfg : WorkerConfig η) (localLayerId : Nat) (ids : List η) : List η :=
  if cfg.tpRank % cfg.tpSize ≠ 0 ∧ localLayerId = 0 then ids.map cfg.requestHasher else ids

theorem dumpEntries_rewriteDumps (cfg : WorkerConfig η) (n : Nat) (metadata : ConnectorMetadata η) :
    dumpEntries (metadata.map fun x => (x.1, cfg.rewriteDumps n x.2)) =
      (dumpEntries metadata).map fun y => (y.1, cfg.rewriteDumpIds n y.2.1, y.2.2) := by
  have hids : ∀ d : RequestDispatchMeta η,
      (cfg.rewriteDumps n d).dumpBlockIds =
      (cfg.rewriteDumpIds n d.dumpBlockIds.1, d.dumpBlockIds.2) := by
    intro d
    unfold WorkerConfig.rewriteDumps WorkerConfig.rewriteDumpIds
    split <;> rfl
  have hempty : ∀ ids : List η, (cfg.rewriteDumpIds n ids).isEmpty = ids.isEmpty := by
    intro ids
    unfold WorkerConfig.rewriteDumpIds
    split <;> simp
  unfold dumpEntries
  rw [List.filter_map, List.map_map, List.map_map]
  simp only [Function.comp_def, hids, hempty]

theorem dumpEntries_rewriteLoads (cfg : WorkerConfig η) (metadata : ConnectorMetadata η) :
    dumpEntries (metadata.map fun x => (x.1, cfg.rewriteLoads x.2)) = dumpEntries metadata := by
  have hdumps : ∀ d : RequestDispatchMeta η, (cfg.rewriteLoads d).dumpBlockIds = d.dumpBlockIds := by
    intro d
    unfold WorkerConfig.rewriteLoads
    split <;> rfl
  unfold dumpEntries
  rw [List.filter_map, List.map_map]
  simp only [Function.comp_def, hdumps]

theorem WorkerConfig.saves_rewriteLoads (cfg : WorkerConfig η) (metadata : ConnectorMetadata η) :
    cfg.Saves (metadata.map fun x => (x.1, cfg.rewriteLoads x.2)) ↔ cfg.Saves metadata := by
  rw [Saves, Saves, dumpEntries_rewriteLoads]

theorem WorkerConfig.saves_rewriteDumps (cfg : WorkerConfig η) (n : Nat)
    (metadata : ConnectorMetadata η) :
    cfg.Saves (metadata.map fun x => (x.1, cfg.rewriteDumps n x.2)) ↔ cfg.Saves metadata := by
  rw [Saves, Saves, dumpEntries_rewriteDumps, ne_eq, ne_eq, List.map_eq_nil_iff]

namespace LayerWiseConnector

variable {cfg : WorkerConfig η} {metadata metadata' m : ConnectorMetadata η}
  {c c' : LayerWiseConnector η} {o : StoreOutcomes}

/-! ## The loop of `wait_for_save` -/

/-- The waits for tasks, up to the first that fails. -/
def waitActs (o : StoreOutcomes) : List (LayerName × Task) → List (Action η)
  | [] => []
  | y :: rest =>
    if o.waitDump y.1 then .waitDump y.1 y.2 true :: waitActs o rest else [.waitDump y.1 y.2 false]

/-- The tasks of `dump_tasks` in the order of `kv_caches`. -/
def tasksInOrder (c : LayerWiseConnector η) (kvs : List KvLayer) : List (LayerName × Task) :=
  kvs.filterMap fun kv => (c.dumpTasks.lookup kv.name).map fun t => (kv.name, t)

theorem waitDumps_waitActs (o : StoreOutcomes) (kvs : List KvLayer) (c : LayerWiseConnector η) :
    waitDumps o kvs c = { c with trace := c.trace ++ waitActs o (c.tasksInOrder kvs) } := by
  induction kvs generalizing c with
  | nil =>
    rw [tasksInOrder, List.filterMap_nil, waitActs, List.append_nil]
    rfl
  | cons kv kvs ih =>
    rw [waitDumps, tasksInOrder, List.filterMap_cons]
    cases htask : c.dumpTasks.lookup kv.name with
    | none => exact ih c
    | some task =>
      simp only [Option.map_some, waitActs]
      split
      · rw [ih]
        simp [record, tasksInOrder]
      · rfl

theorem mem_waitActs {T : List (LayerName × Task)} {a : Action η} (ha : a ∈ waitActs o T) :
    ∃ y ∈ T, ∃ ok, a = .waitDump y.1 y.2 ok := by
  induction T with
  | nil => simp [waitActs] at ha
  | cons y T ih =>
    rw [waitActs] at ha
    split at ha
    · rcases List.mem_cons.mp ha with rfl | ha
      · exact ⟨y, List.mem_cons_self, true, rfl⟩
      · obtain ⟨z, hz, hrest⟩ := ih ha
        exact ⟨z, List.mem_cons_of_mem _ hz, hrest⟩
    · exact ⟨y, List.mem_cons_self, false, List.mem_singleton.mp ha⟩

theorem waitForSave_trace (h : SaveInv c) :
    (waitForSave cfg o c).trace = c.trace ++ waitActs o (c.tasksInOrder cfg.kvCaches) := by
  unfold waitForSave
  split
  · rw [waitDumps_waitActs]
  · rename_i hsave
    have hnil : c.tasksInOrder cfg.kvCaches = [] := by
      rw [tasksInOrder, (h (by simpa using hsave)).1]
      simp
    rw [hnil, waitActs, List.append_nil]

theorem waitActs_once_iff {T : List (LayerName × Task)} (hT : (T.map Prod.snd).Nodup) :
    (∀ y ∈ T, (waitActs (η := η) o T).countP (Action.waitsFor y.2) = 1) ↔
      T.Pairwise fun a _ => o.waitDump a.1 = true := by
  induction T with
  | nil => simp
  | cons y T ih =>
    obtain ⟨hy, hT⟩ := List.nodup_cons.mp hT
    have hself : ∀ ok, Action.waitsFor y.2 (.waitDump y.1 y.2 ok : Action η) = true := by
      simp [Action.waitsFor]
    have hother : ∀ z ∈ T, ∀ ok, Action.waitsFor z.2 (.waitDump y.1 y.2 ok : Action η) = false := by
      intro z hz ok
      have hne : y.2 ≠ z.2 := fun heq => hy (heq ▸ List.mem_map_of_mem hz)
      simp [Action.waitsFor, hne]
    rw [waitActs, List.pairwise_cons, List.forall_mem_cons]
    split
    · rename_i hok
      have hzero : (waitActs (η := η) o T).countP (Action.waitsFor y.2) = 0 := by
        rw [List.countP_eq_zero]
        intro a ha ht
        obtain ⟨z, hz, ok, rfl⟩ := mem_waitActs ha
        have heq : z.2 = y.2 := by simpa [Action.waitsFor] using ht
        exact hy (heq ▸ List.mem_map_of_mem hz)
      have hrest : (∀ z ∈ T, (.waitDump y.1 y.2 true :: waitActs (η := η) o T).countP
          (Action.waitsFor z.2) = 1) ↔ ∀ z ∈ T, (waitActs (η := η) o T).countP
          (Action.waitsFor z.2) = 1 := by
        refine forall₂_congr fun z hz => ?_
        rw [List.countP_cons, hother z hz]
        simp
      rw [hrest, ih hT, List.countP_cons, hself, hzero]
      simp [hok]
    · rename_i hok
      constructor
      · rintro ⟨-, hall⟩
        have hnil : T = [] := by
          rw [List.eq_nil_iff_forall_not_mem]
          intro z hz
          have := hall z hz
          rw [List.countP_singleton, hother z hz] at this
          simp at this
        subst hnil
        simp
      · rintro ⟨hall, -⟩
        have hnil : T = [] := by
          rw [List.eq_nil_iff_forall_not_mem]
          exact fun z hz => hok (hall z hz)
        subst hnil
        simp [hself]

/-! ## The hooks -/

theorem saveKvLayer_of_not_saves (hm : c.connectorMetadata = some m) (h : ¬ cfg.Saves m)
    (hsave : c.isSave = false) (kv : KvLayer) :
    (saveKvLayer cfg o c kv).trace = c.trace ∧ (saveKvLayer cfg o c kv).dumpTasks = c.dumpTasks ∧
      (saveKvLayer cfg o c kv).isSave = false := by
  unfold saveKvLayer
  rw [hm]
  dsimp only
  split_ifs with hmla hentries
  · exact ⟨rfl, rfl, hsave⟩
  · have hne : dumpEntries (m.map fun x =>
        (x.1, cfg.rewriteDumps (kv.layerId - cfg.firstLayerId) x.2)) ≠ [] := by
      simpa [hsave] using hentries
    exact absurd ((cfg.saves_rewriteDumps _ m).mp ⟨hmla, hne⟩) h
  · exact ⟨rfl, rfl, by simpa using hentries⟩

theorem saveKvLayer_of_saves (hm : c.connectorMetadata = some m) (h : cfg.Saves m) (kv : KvLayer) :
    (saveKvLayer cfg o c kv).isSave = true ∧ ∃ ids shards ptrs,
      (o.submitDump kv.name = true ∧
        (saveKvLayer cfg o c kv).trace =
          c.trace ++ [.dumpData kv.name ids shards ptrs (some c.trace.length)] ∧
        (saveKvLayer cfg o c kv).dumpTasks = dictSet c.dumpTasks kv.name c.trace.length) ∨
      (o.submitDump kv.name = false ∧
        (saveKvLayer cfg o c kv).trace = c.trace ++ [.dumpData kv.name ids shards ptrs none] ∧
        (saveKvLayer cfg o c kv).dumpTasks = c.dumpTasks) := by
  obtain ⟨hmla, hne⟩ := (cfg.saves_rewriteDumps (kv.layerId - cfg.firstLayerId) m).mpr h
  have hentries : (!(dumpEntries (m.map fun x =>
      (x.1, cfg.rewriteDumps (kv.layerId - cfg.firstLayerId) x.2))).isEmpty) = true := by
    simpa using hne
  unfold saveKvLayer dumpLayer
  rw [hm]
  dsimp only
  rw [if_neg hmla, hentries, Bool.or_true, if_pos rfl]
  split_ifs with hok
  · exact ⟨rfl, _, _, _, .inl ⟨hok, rfl, rfl⟩⟩
  · exact ⟨rfl, _, _, _, .inr ⟨by simpa using hok, rfl, rfl⟩⟩

theorem saveKvLayer_connectorMetadata (hm : c.connectorMetadata = some m) (kv : KvLayer) :
    (saveKvLayer cfg o c kv).connectorMetadata =
      some (if cfg.isMla = true ∧ cfg.tpRank % cfg.tpSize ≠ 0 then m
        else m.map fun x => (x.1, cfg.rewriteDumps (kv.layerId - cfg.firstLayerId) x.2)) := by
  unfold saveKvLayer dumpLayer
  rw [hm]
  dsimp only
  split_ifs
  · exact hm
  all_goals rfl

theorem saveKvLayer_saves (hm : c.connectorMetadata = some m) (kv : KvLayer) :
    ∃ m', (saveKvLayer cfg o c kv).connectorMetadata = some m' ∧ (cfg.Saves m' ↔ cfg.Saves m) := by
  refine ⟨_, saveKvLayer_connectorMetadata hm kv, ?_⟩
  split
  · exact Iff.rfl
  · exact cfg.saves_rewriteDumps _ m

/-! ## The ledger of all tasks -/

/-- The task is that of a load. -/
def LoadTask (log : List (Action η)) (t : Task) : Prop :=
  ∃ a ∈ log, a.submits t ∧ ∃ req, a.loadsFor req

theorem LoadTask.mono {log log' : List (Action η)} {t : Task} (h : LoadTask log t)
    (hsub : log ⊆ log') : LoadTask log' t := by
  obtain ⟨a, ha, hrest⟩ := h
  exact ⟨a, hsub ha, hrest⟩

/-- The tasks of a step before `wait_for_save`. -/
structure TaskLedger (c : LayerWiseConnector η) : Prop where
  numbered : Numbered c.trace
  loadTasks : ∀ l, ∀ y ∈ c.loadTasks l, LoadTask c.trace y.2
  /-- Only loads are waited for. -/
  waits : ∀ a ∈ c.trace, ∀ t, a.waitsFor t → LoadTask c.trace t
  made : DumpTasksMade c
  /-- A dump task stays in `dump_tasks`. -/
  kept : ∀ layer ids shards ptrs t, .dumpData layer ids shards ptrs (some t) ∈ c.trace →
    (layer, t) ∈ c.dumpTasks

theorem TaskLedger.countP_dump (h : TaskLedger c) {y : LayerName × Task} (hy : y ∈ c.dumpTasks) :
    c.trace.countP (Action.waitsFor y.2) = 0 := by
  rw [List.countP_eq_zero]
  intro a ha ht
  obtain ⟨ids, shards, ptrs, hmem⟩ := h.made y hy
  obtain ⟨b, hb, hsub, req, hload⟩ := h.waits a ha y.2 ht
  obtain rfl := h.numbered.unique hb hmem hsub (by simp [Action.submits])
  simp [Action.loadsFor] at hload

theorem TaskLedger.dump_inj (h : TaskLedger c) {y z : LayerName × Task} (hy : y ∈ c.dumpTasks)
    (hz : z ∈ c.dumpTasks) (heq : y.2 = z.2) : y = z := by
  obtain ⟨ids, shards, ptrs, hmem⟩ := h.made y hy
  obtain ⟨ids', shards', ptrs', hmem'⟩ := h.made z hz
  have := h.numbered.unique hmem hmem' (t := y.2) (by simp [Action.submits])
    (by simp [Action.submits, heq])
  refine Prod.ext ?_ heq
  injection this

theorem TaskLedger.append {a : Action η} (h : TaskLedger c) (htrace : c'.trace = c.trace ++ [a])
    (hdumps : c'.dumpTasks = c.dumpTasks) (hnum : ∀ t, a.submits t → t = c.trace.length)
    (hwait : ∀ t, a.waitsFor t → LoadTask c.trace t)
    (hkept : ∀ layer ids shards ptrs t, a ≠ .dumpData layer ids shards ptrs (some t))
    (htasks : ∀ l, ∀ y ∈ c'.loadTasks l, y ∈ c.loadTasks l ∨ LoadTask c'.trace y.2) :
    TaskLedger c' := by
  have hsub : c.trace ⊆ c'.trace := htrace ▸ List.subset_append_left _ _
  refine ⟨htrace ▸ h.numbered.append hnum, ?_, ?_, ?_, ?_⟩
  · intro l y hy
    rcases htasks l y hy with hy | hy
    · exact (h.loadTasks l y hy).mono hsub
    · exact hy
  · intro b hb t ht
    rw [htrace] at hb
    rcases List.mem_append.mp hb with hb | hb
    · exact (h.waits b hb t ht).mono hsub
    · obtain rfl := List.mem_singleton.mp hb
      exact (hwait t ht).mono hsub
  · intro y hy
    obtain ⟨ids, shards, ptrs, hmem⟩ := h.made y (hdumps ▸ hy)
    exact ⟨ids, shards, ptrs, hsub hmem⟩
  · intro layer ids shards ptrs t hmem
    rw [htrace] at hmem
    rw [hdumps]
    rcases List.mem_append.mp hmem with hmem | hmem
    · exact h.kept layer ids shards ptrs t hmem
    · exact absurd (List.mem_singleton.mp hmem).symm (hkept layer ids shards ptrs t)

theorem TaskLedger.submitRequest (h : TaskLedger c) (o : Outcomes) (l row : Nat)
    (data : ReqId × List η × List (List (List UInt64))) :
    TaskLedger (submitRequest o metadata l row c data) := by
  obtain ⟨req, ids, ptrs⟩ := data
  unfold LayerWiseConnector.submitRequest
  dsimp only
  split_ifs
  · exact h
  · refine h.append rfl rfl ?_ (by simp [Action.waitsFor]) (by simp) ?_
    · simp [Action.submits, eq_comm]
    · intro l' y hy
      by_cases hl : l' = l
      · subst hl
        rw [putLoadTask_loadTasks_self] at hy
        rcases mem_dictSet hy with hy | rfl
        · exact .inl hy
        · right
          exact ⟨_, List.mem_append_right _ (List.mem_singleton_self _), by simp [Action.submits], req,
            by simp [Action.loadsFor]⟩
      · rw [putLoadTask_loadTasks_of_ne _ hl] at hy
        exact .inl hy
  · exact h.append rfl rfl (by simp [Action.submits]) (by simp [Action.waitsFor]) (by simp)
      fun _ _ hy => .inl hy

theorem TaskLedger.submitRequests (h : TaskLedger c) (o : Outcomes) (l row : Nat)
    (metadata : ConnectorMetadata η) (data : List (ReqId × List η × List (List (List UInt64)))) :
    TaskLedger (data.foldl (LayerWiseConnector.submitRequest o metadata l row) c) := by
  induction data generalizing c with
  | nil => exact h
  | cons d data ih => exact ih (h.submitRequest o l row d)

theorem TaskLedger.waitRequests (h : TaskLedger c) (o : Outcomes) (l : Nat)
    (metadata : ConnectorMetadata η) {ys : List (ReqId × Task)}
    (hys : ∀ y ∈ ys, LoadTask c.trace y.2) :
    TaskLedger (ys.foldl (waitRequest o metadata l) c) := by
  induction ys generalizing c with
  | nil => exact h
  | cons y ys ih =>
    have hwait : ∀ ok t, (Action.waitLoad y.1 y.2 ok : Action η).waitsFor t → LoadTask c.trace t := by
      intro ok t ht
      obtain rfl : y.2 = t := by simpa [Action.waitsFor] using ht
      exact hys y List.mem_cons_self
    have hstep : TaskLedger (waitRequest o metadata l c y) := by
      unfold waitRequest
      split_ifs
      · exact h.append rfl rfl (by simp [Action.submits]) (hwait true) (by simp)
          fun _ _ hy => .inl hy
      · exact h.append rfl rfl (by simp [Action.submits]) (hwait false) (by simp)
          fun _ _ hy => .inl hy
    refine ih hstep fun z hz => ?_
    exact (hys z (List.mem_cons_of_mem _ hz)).mono (waitRequest_extends o metadata l c y).trace.subset

theorem TaskLedger.waitForLayerLoad (h : TaskLedger c) (o : Outcomes) (kv : KvLayer) :
    TaskLedger (waitForLayerLoad cfg o c kv) := by
  unfold LayerWiseConnector.waitForLayerLoad
  split
  · exact h
  · rename_i m _
    have hwait := h.waitRequests o kv.layerId m (h.loadTasks kv.layerId)
    dsimp only
    split_ifs
    · exact hwait.submitRequests o _ _ m _
    · exact hwait
    · exact h

theorem TaskLedger.forward (h : TaskLedger c) (l : Nat) : TaskLedger (c.record (.forward l)) :=
  h.append rfl rfl (by simp [Action.submits]) (by simp [Action.waitsFor]) (by simp)
    fun _ _ hy => .inl hy

/-! ## The layers of a step -/

/-- The dumps of a step when the hooks of the layers `ran` have been called. -/
structure Saving (cfg : WorkerConfig η) (metadata : ConnectorMetadata η) (o : StoreOutcomes)
    (ran : List KvLayer) (c : LayerWiseConnector η) : Prop where
  ledger : TaskLedger c
  sameSaves : ∃ m, c.connectorMetadata = some m ∧ (cfg.Saves m ↔ cfg.Saves metadata)
  isSave : c.isSave = true ↔ cfg.Saves metadata ∧ ran ≠ []
  names : ∀ name, name ∈ c.dumpTasks.map Prod.fst ↔
    cfg.Saves metadata ∧ o.submitDump name = true ∧ name ∈ ran.map KvLayer.name
  nodup : (c.dumpTasks.map Prod.fst).Nodup

theorem TaskLedger.putDumpTask {kv : KvLayer} {ids : List η} {shards : List Nat}
    {ptrs : List (List UInt64)} (h : TaskLedger c) (hname : kv.name ∉ c.dumpTasks.map Prod.fst)
    (htrace : c'.trace = c.trace ++ [.dumpData kv.name ids shards ptrs (some c.trace.length)])
    (hdumps : c'.dumpTasks = dictSet c.dumpTasks kv.name c.trace.length)
    (htasks : c'.loadTasks = c.loadTasks) : TaskLedger c' := by
  rw [dictSet_of_notMem _ hname] at hdumps
  have hsub : c.trace ⊆ c'.trace := htrace ▸ List.subset_append_left _ _
  refine ⟨?_, ?_, ?_, ?_, ?_⟩
  · rw [htrace]
    refine h.numbered.append fun t ht => ?_
    have : c.trace.length = t := by simpa [Action.submits] using ht
    exact this.symm
  · intro l y hy
    rw [htasks] at hy
    exact (h.loadTasks l y hy).mono hsub
  · intro b hb t ht
    rw [htrace] at hb
    rcases List.mem_append.mp hb with hb | hb
    · exact (h.waits b hb t ht).mono hsub
    · obtain rfl := List.mem_singleton.mp hb
      simp [Action.waitsFor] at ht
  · intro y hy
    rw [hdumps] at hy
    rcases List.mem_append.mp hy with hy | hy
    · obtain ⟨ids', shards', ptrs', hmem⟩ := h.made y hy
      exact ⟨ids', shards', ptrs', hsub hmem⟩
    · obtain rfl := List.mem_singleton.mp hy
      rw [htrace]
      exact ⟨ids, shards, ptrs, List.mem_append_right _ (List.mem_singleton_self _)⟩
  · intro layer ids' shards' ptrs' t hmem
    rw [htrace] at hmem
    rw [hdumps]
    rcases List.mem_append.mp hmem with hmem | hmem
    · exact List.mem_append_left _ (h.kept layer ids' shards' ptrs' t hmem)
    · have := List.mem_singleton.mp hmem
      injection this with hlayer _ _ _ ht
      rw [hlayer, Option.some.inj ht]
      exact List.mem_append_right _ (List.mem_singleton_self _)

theorem Saving.saveKvLayer {ran : List KvLayer} (h : Saving cfg metadata o ran c) {kv : KvLayer}
    (hkv : kv.name ∉ ran.map KvLayer.name) :
    Saving cfg metadata o (ran ++ [kv]) (saveKvLayer cfg o c kv) := by
  obtain ⟨m, hm, hsame⟩ := h.sameSaves
  have hmeta : ∃ m, (LayerWiseConnector.saveKvLayer cfg o c kv).connectorMetadata = some m ∧
      (cfg.Saves m ↔ cfg.Saves metadata) := by
    obtain ⟨m', hm', hsame'⟩ := saveKvLayer_saves hm kv
    exact ⟨m', hm', hsame'.trans hsame⟩
  have hloads := (saveKvLayer_loads cfg o c kv).1
  have hne : ran ++ [kv] ≠ [] := by simp
  by_cases hsaves : cfg.Saves metadata
  · have hfresh : kv.name ∉ c.dumpTasks.map Prod.fst := fun hmem => hkv ((h.names kv.name).mp hmem).2.2
    obtain ⟨hsave, ids, shards, ptrs, ⟨hok, htrace, hdumps⟩ | ⟨hok, htrace, hdumps⟩⟩ :=
      saveKvLayer_of_saves (o := o) hm (hsame.mpr hsaves) kv
    · refine ⟨h.ledger.putDumpTask hfresh htrace hdumps hloads, hmeta, by simp [hsave, hsaves], ?_, ?_⟩
      · intro name
        rw [hdumps, dictSet_of_notMem _ hfresh]
        have := h.names name
        by_cases hname : name = kv.name
        · simp [hname, hsaves, hok]
        · simp only [List.map_append, List.mem_append, this]
          simp [hname]
      · rw [hdumps, dictSet_of_notMem _ hfresh, List.map_append]
        refine List.nodup_append.mpr ⟨h.nodup, List.nodup_singleton _, ?_⟩
        rintro a ha b hb rfl
        obtain rfl : a = kv.name := by simpa using hb
        exact hfresh ha
    · refine ⟨?_, hmeta, by simp [hsave, hsaves], ?_, hdumps ▸ h.nodup⟩
      · refine h.ledger.append htrace hdumps (by simp [Action.submits]) (by simp [Action.waitsFor])
          (by simp) fun l y hy => ?_
        rw [hloads] at hy
        exact .inl hy
      · intro name
        rw [hdumps, h.names name, List.map_append, List.mem_append]
        constructor
        · rintro ⟨hs, hsub, hmem⟩
          exact ⟨hs, hsub, .inl hmem⟩
        · rintro ⟨hs, hsub, hmem | hmem⟩
          · exact ⟨hs, hsub, hmem⟩
          · obtain rfl : name = kv.name := by simpa using hmem
            simp [hok] at hsub
  · have hsave : c.isSave = false := by
      have := h.isSave
      simpa [hsaves] using this
    obtain ⟨htrace, hdumps, hsave'⟩ := saveKvLayer_of_not_saves (o := o) hm (mt hsame.mp hsaves) hsave kv
    refine ⟨⟨htrace ▸ h.ledger.numbered, ?_, ?_, ?_, ?_⟩, hmeta, by simp [hsave', hsaves], ?_,
      hdumps ▸ h.nodup⟩
    · rw [hloads, htrace]
      exact h.ledger.loadTasks
    · rw [htrace]
      exact h.ledger.waits
    · rw [DumpTasksMade, hdumps, htrace]
      exact h.ledger.made
    · rw [hdumps, htrace]
      exact h.ledger.kept
    · intro name
      rw [hdumps, h.names name]
      simp [hsaves]

theorem Saving.of_extends {ran : List KvLayer} (h : Saving cfg metadata o ran c) (hext : Extends c c')
    (hledger : TaskLedger c') : Saving cfg metadata o ran c' := by
  refine ⟨hledger, ?_, ?_, ?_, ?_⟩
  · obtain ⟨m, hm, hsame⟩ := h.sameSaves
    exact ⟨m, hext.connectorMetadata.trans hm, hsame⟩
  · rw [hext.isSave]
    exact h.isSave
  · rw [hext.dumpTasks]
    exact h.names
  · rw [hext.dumpTasks]
    exact h.nodup

theorem Saving.runLayer {ran : List KvLayer} (h : Saving cfg metadata o ran c) {kv : KvLayer}
    (hkv : kv.name ∉ ran.map KvLayer.name) :
    Saving cfg metadata o (ran ++ [kv]) (runLayer cfg o c kv) := by
  have hwait := h.of_extends (waitForLayerLoad_extends cfg o.loads c kv)
    (h.ledger.waitForLayerLoad o.loads kv)
  have hforward : Saving cfg metadata o ran
      ((waitForLayerLoad cfg o.loads c kv).record (.forward kv.layerId)) :=
    ⟨hwait.ledger.forward kv.layerId, hwait.sameSaves, hwait.isSave, hwait.names, hwait.nodup⟩
  exact hforward.saveKvLayer hkv

theorem Saving.foldl : ∀ (kvs ran : List KvLayer) (c : LayerWiseConnector η),
    ran ++ kvs = cfg.kvCaches → Saving cfg metadata o ran c →
      Saving cfg metadata o cfg.kvCaches (kvs.foldl (LayerWiseConnector.runLayer cfg o) c) := by
  intro kvs
  induction kvs with
  | nil =>
    intro ran c h hc
    rw [List.append_nil] at h
    exact h ▸ hc
  | cons kv kvs ih =>
    intro ran c h hc
    have hkv : kv.name ∉ ran.map KvLayer.name := by
      have hn := cfg.names_nodup
      rw [← h, List.map_append, List.nodup_append] at hn
      exact fun hmem => hn.2.2 _ hmem _ List.mem_cons_self rfl
    exact ih (ran ++ [kv]) _ (by rw [List.append_assoc]; exact h) (hc.runLayer hkv)

theorem Saving.beginLoads (h : Idle c) (hc : c.trace = []) :
    Saving cfg metadata o []
      (beginLoads cfg (metadata.map fun x => (x.1, cfg.rewriteLoads x.2)) c) := by
  have hdumps : (LayerWiseConnector.beginLoads cfg
      (metadata.map fun x => (x.1, cfg.rewriteLoads x.2)) c).dumpTasks = [] := h.dumpTasks
  have htrace : (LayerWiseConnector.beginLoads cfg
      (metadata.map fun x => (x.1, cfg.rewriteLoads x.2)) c).trace = [] := hc
  refine ⟨⟨?_, ?_, ?_, ?_, ?_⟩, ⟨_, rfl, cfg.saves_rewriteLoads metadata⟩, ?_, ?_, ?_⟩
  · simp [Numbered, htrace]
  · simp [LayerWiseConnector.beginLoads]
  · simp [htrace]
  · simp [DumpTasksMade, hdumps]
  · simp [htrace]
  · simp [LayerWiseConnector.beginLoads, h.isSave]
  · simp [hdumps]
  · simp [hdumps]

theorem Saving.startLoadKv (h : Idle c) :
    Saving cfg metadata o [] (startLoadKv cfg o.loads (c.bindConnectorMetadata metadata)) := by
  have hbegin : Saving cfg metadata o [] (LayerWiseConnector.beginLoads cfg
      (metadata.map fun x => (x.1, cfg.rewriteLoads x.2)) (c.bindConnectorMetadata metadata)) :=
    Saving.beginLoads ⟨h.isSave, h.dumpTasks, h.dumpTotalPtrs⟩ rfl
  unfold LayerWiseConnector.startLoadKv
  dsimp only [bindConnectorMetadata] at hbegin ⊢
  split
  · exact hbegin.of_extends (.foldl (submitRequest_extends o.loads _ _ _) _ _)
      (hbegin.ledger.submitRequests o.loads _ _ _ _)
  · exact hbegin

/-! ## Which tasks are waited for -/

theorem tasksInOrder_names (c : LayerWiseConnector η) (kvs : List KvLayer) :
    (c.tasksInOrder kvs).map Prod.fst =
      (kvs.map KvLayer.name).filter fun name => (c.dumpTasks.lookup name).isSome := by
  induction kvs with
  | nil => rfl
  | cons kv kvs ih =>
    rw [tasksInOrder, List.filterMap_cons, List.map_cons, List.filter_cons]
    cases htask : c.dumpTasks.lookup kv.name with
    | none => simpa [htask, tasksInOrder] using ih
    | some t => simpa [htask, tasksInOrder] using ih

theorem mem_of_lookup {κ α : Type*} [DecidableEq κ] {d : List (κ × α)} {key : κ} {value : α}
    (h : d.lookup key = some value) : (key, value) ∈ d := by
  obtain ⟨l₁, l₂, heq, -⟩ := List.lookup_eq_some_iff.mp h
  rw [heq]
  simp

theorem lookup_of_mem {κ α : Type*} [DecidableEq κ] {d : List (κ × α)}
    (hd : (d.map Prod.fst).Nodup) {y : κ × α} (h : y ∈ d) : d.lookup y.1 = some y.2 := by
  cases hfound : d.lookup y.1 with
  | none => exact absurd (List.lookup_eq_none_iff.mp hfound y h) (by simp)
  | some value =>
    have := List.inj_on_of_nodup_map hd (mem_of_lookup hfound) h rfl
    rw [← this]

namespace Saving

theorem lookup_isSome (h : Saving cfg metadata o cfg.kvCaches c) (name : LayerName) :
    (c.dumpTasks.lookup name).isSome ↔
      cfg.Saves metadata ∧ o.submitDump name = true ∧ name ∈ cfg.kvCaches.map KvLayer.name := by
  rw [← h.names name, Option.isSome_iff_exists]
  constructor
  · rintro ⟨t, ht⟩
    exact List.mem_map.mpr ⟨_, mem_of_lookup ht, rfl⟩
  · intro hmem
    obtain ⟨y, hy, rfl⟩ := List.mem_map.mp hmem
    exact ⟨y.2, lookup_of_mem h.nodup hy⟩

theorem mem_tasksInOrder (h : Saving cfg metadata o cfg.kvCaches c) {y : LayerName × Task} :
    y ∈ c.tasksInOrder cfg.kvCaches ↔ y ∈ c.dumpTasks := by
  rw [tasksInOrder, List.mem_filterMap]
  constructor
  · rintro ⟨kv, -, hy⟩
    obtain ⟨t, ht, rfl⟩ := Option.map_eq_some_iff.mp hy
    exact mem_of_lookup ht
  · intro hy
    obtain ⟨-, -, hmem⟩ := (h.names y.1).mp (List.mem_map_of_mem hy)
    obtain ⟨kv, hkv, hname⟩ := List.mem_map.mp hmem
    refine ⟨kv, hkv, ?_⟩
    rw [hname, lookup_of_mem h.nodup hy]
    rfl

theorem tasksInOrder_nodup (h : Saving cfg metadata o cfg.kvCaches c) :
    ((c.tasksInOrder cfg.kvCaches).map Prod.snd).Nodup := by
  have hnames : ((c.tasksInOrder cfg.kvCaches).map Prod.fst).Nodup := by
    rw [tasksInOrder_names]
    exact cfg.names_nodup.filter _
  refine hnames.of_map.map_on ?_
  intro y hy z hz heq
  exact h.ledger.dump_inj (h.mem_tasksInOrder.mp hy) (h.mem_tasksInOrder.mp hz) heq

theorem pairwise_iff (h : Saving cfg metadata o cfg.kvCaches c) :
    (c.tasksInOrder cfg.kvCaches).Pairwise (fun a _ => o.waitDump a.1 = true) ↔
      (cfg.Saves metadata → (cfg.kvCaches.map KvLayer.name).Pairwise fun a b =>
        o.submitDump a = true → o.submitDump b = true → o.waitDump a = true) := by
  have hmap : (c.tasksInOrder cfg.kvCaches).Pairwise (fun a _ => o.waitDump a.1 = true) ↔
      ((c.tasksInOrder cfg.kvCaches).map Prod.fst).Pairwise fun a _ => o.waitDump a = true := by
    rw [List.pairwise_map]
  rw [hmap, tasksInOrder_names, List.pairwise_filter]
  by_cases hsaves : cfg.Saves metadata
  · rw [forall_prop_of_true hsaves]
    refine List.Pairwise.iff_of_mem fun {a b} ha hb => ?_
    rw [h.lookup_isSome a, h.lookup_isSome b]
    simp [hsaves, ha, hb]
  · have hall : (cfg.kvCaches.map KvLayer.name).Pairwise fun a b =>
        (c.dumpTasks.lookup a).isSome = true → (c.dumpTasks.lookup b).isSome = true →
          o.waitDump a = true := by
      refine List.pairwise_of_forall fun a b ha => ?_
      exact absurd ((h.lookup_isSome a).mp ha).1 hsaves
    exact ⟨fun _ hs => absurd hs hsaves, fun _ => hall⟩

theorem drained_iff (h : Saving cfg metadata o cfg.kvCaches c)
    (htrace : c'.trace = c.trace ++ waitActs o (c.tasksInOrder cfg.kvCaches)) :
    (∀ layer ids shards ptrs t, .dumpData layer ids shards ptrs (some t) ∈ c'.trace →
      c'.trace.countP (Action.waitsFor t) = 1) ↔
      (cfg.Saves metadata → (cfg.kvCaches.map KvLayer.name).Pairwise fun a b =>
        o.submitDump a = true → o.submitDump b = true → o.waitDump a = true) := by
  rw [← h.pairwise_iff, ← waitActs_once_iff (η := η) h.tasksInOrder_nodup, htrace]
  have hcount : ∀ y ∈ c.dumpTasks, (c.trace ++ waitActs o (c.tasksInOrder cfg.kvCaches)).countP
      (Action.waitsFor y.2) = (waitActs (η := η) o (c.tasksInOrder cfg.kvCaches)).countP
        (Action.waitsFor y.2) := by
    intro y hy
    rw [List.countP_append, h.ledger.countP_dump hy, Nat.zero_add]
  constructor
  · intro hall y hy
    have hy := h.mem_tasksInOrder.mp hy
    obtain ⟨ids, shards, ptrs, hmem⟩ := h.ledger.made y hy
    rw [← hcount y hy]
    exact hall y.1 ids shards ptrs y.2 (List.mem_append_left _ hmem)
  · intro hall layer ids shards ptrs t hmem
    rcases List.mem_append.mp hmem with hmem | hmem
    · have hy := h.ledger.kept layer ids shards ptrs t hmem
      rw [hcount _ hy]
      exact hall _ (h.mem_tasksInOrder.mpr hy)
    · obtain ⟨y, -, ok, heq⟩ := mem_waitActs hmem
      cases heq

end Saving

/-! ## The next step -/

/-- What a function does, but for `_invalid_block_ids`, does not depend on `_invalid_block_ids`. -/
def Blind (f : LayerWiseConnector η → LayerWiseConnector η) : Prop :=
  ∀ c inv, ∃ inv', f { c with invalidBlockIds := inv } = { f c with invalidBlockIds := inv' }

theorem Blind.comp {f g : LayerWiseConnector η → LayerWiseConnector η} (hf : Blind f) (hg : Blind g) :
    Blind fun c => f (g c) := by
  intro c inv
  obtain ⟨inv', hinv'⟩ := hg c inv
  obtain ⟨inv'', hinv''⟩ := hf (g c) inv'
  exact ⟨inv'', (congrArg f hinv').trans hinv''⟩

theorem Blind.foldl {α : Type*} {f : LayerWiseConnector η → α → LayerWiseConnector η}
    (hf : ∀ x, Blind fun c => f c x) (xs : List α) : Blind fun c => xs.foldl f c := by
  induction xs with
  | nil => exact fun c inv => ⟨inv, rfl⟩
  | cons x xs ih => exact Blind.comp ih (hf x)

theorem Blind.ite {f g : LayerWiseConnector η → LayerWiseConnector η} (hf : Blind f) (hg : Blind g)
    {p : LayerWiseConnector η → Bool} (hp : ∀ c inv, p { c with invalidBlockIds := inv } = p c) :
    Blind fun c => if p c then f c else g c := by
  intro c inv
  simp only [hp]
  split
  · exact hf c inv
  · exact hg c inv

theorem submitRequest_blind (o : Outcomes) (metadata : ConnectorMetadata η) (l row : Nat)
    (data : ReqId × List η × List (List (List UInt64))) :
    Blind fun c => submitRequest o metadata l row c data := by
  intro c inv
  obtain ⟨req, ids, ptrs⟩ := data
  dsimp only [submitRequest]
  split_ifs
  · exact ⟨inv, rfl⟩
  · exact ⟨inv, rfl⟩
  · exact ⟨_, rfl⟩

theorem waitRequest_blind (o : Outcomes) (metadata : ConnectorMetadata η) (l : Nat)
    (x : ReqId × Task) : Blind fun c => waitRequest o metadata l c x := by
  intro c inv
  dsimp only [waitRequest]
  split_ifs
  · exact ⟨inv, rfl⟩
  · exact ⟨_, rfl⟩

theorem submitRequestLoadTasksForLayer_blind (o : Outcomes) (metadata : ConnectorMetadata η)
    (l row : Nat) : Blind fun c => submitRequestLoadTasksForLayer o l row metadata c := by
  intro c inv
  exact Blind.foldl (submitRequest_blind o metadata l row) c.requestData c inv

theorem waitForLayerLoad_blind (cfg : WorkerConfig η) (o : Outcomes) (kv : KvLayer) :
    Blind fun c => waitForLayerLoad cfg o c kv := by
  intro c inv
  dsimp only [waitForLayerLoad]
  split
  · exact ⟨inv, rfl⟩
  · rename_i m _
    have hwait : Blind fun c' => (c.loadTasks kv.layerId).foldl (waitRequest o m kv.layerId) c' :=
      Blind.foldl (waitRequest_blind o m kv.layerId) _
    split_ifs
    · exact (submitRequestLoadTasksForLayer_blind o m _ _).comp hwait c inv
    · exact hwait c inv
    · exact ⟨inv, rfl⟩

theorem saveKvLayer_blind (cfg : WorkerConfig η) (o : StoreOutcomes) (kv : KvLayer) :
    Blind fun c => saveKvLayer cfg o c kv := by
  intro c inv
  dsimp only [saveKvLayer, dumpLayer]
  split
  · exact ⟨inv, rfl⟩
  · split_ifs
    · exact ⟨inv, rfl⟩
    · exact ⟨inv, rfl⟩
    · exact ⟨inv, rfl⟩
    · exact ⟨inv, rfl⟩

theorem runLayer_blind (cfg : WorkerConfig η) (o : StoreOutcomes) (kv : KvLayer) :
    Blind fun c => runLayer cfg o c kv := by
  have hforward : Blind fun c : LayerWiseConnector η => c.record (.forward kv.layerId) :=
    fun c inv => ⟨inv, rfl⟩
  exact (saveKvLayer_blind cfg o kv).comp (hforward.comp (waitForLayerLoad_blind cfg o.loads kv))

theorem waitForSave_blind (cfg : WorkerConfig η) (o : StoreOutcomes) :
    Blind fun c => waitForSave cfg o c := by
  intro c inv
  dsimp only [waitForSave]
  split
  · refine ⟨inv, ?_⟩
    rw [waitDumps_waitActs, waitDumps_waitActs]
    rfl
  · exact ⟨inv, rfl⟩

theorem startLoadKv_blind (cfg : WorkerConfig η) (o : Outcomes) :
    Blind fun c => startLoadKv cfg o c := by
  intro c inv
  dsimp only [startLoadKv]
  split
  · exact ⟨inv, rfl⟩
  · rename_i m _
    have hbegin : Blind (beginLoads cfg (m.map fun x => (x.1, cfg.rewriteLoads x.2))) :=
      fun _ inv => ⟨inv, rfl⟩
    exact Blind.ite (p := fun c =>
      (beginLoads cfg (m.map fun x => (x.1, cfg.rewriteLoads x.2)) c).needLoad)
      ((submitRequestLoadTasksForLayer_blind o _ _ _).comp hbegin) hbegin (fun _ _ => rfl) c inv

theorem Idle.runStep_trace (h : Idle c) (e : Step η) :
    (c.runStep cfg e).trace = (start.runStep cfg e).trace := by
  have hbind : startLoadKv cfg e.outcomes.loads (c.bindConnectorMetadata e.metadata) =
      startLoadKv cfg e.outcomes.loads
        { start.bindConnectorMetadata e.metadata with invalidBlockIds := c.invalidBlockIds } := by
    unfold startLoadKv beginLoads bindConnectorMetadata
    dsimp only
    rw [h.isSave, h.dumpTasks, h.dumpTotalPtrs]
    rfl
  have hblind : Blind fun c => waitForSave cfg e.outcomes (cfg.kvCaches.foldl
      (runLayer cfg e.outcomes) (startLoadKv cfg e.outcomes.loads c)) :=
    (waitForSave_blind cfg e.outcomes).comp
      ((Blind.foldl (runLayer_blind cfg e.outcomes) _).comp (startLoadKv_blind cfg e.outcomes.loads))
  obtain ⟨inv, hinv⟩ := hblind (start.bindConnectorMetadata e.metadata) c.invalidBlockIds
  unfold LayerWiseConnector.runStep
  rw [hbind]
  have htrace := congrArg LayerWiseConnector.trace hinv
  exact htrace

end LayerWiseConnector

open LayerWiseConnector

/-- **When saving is drained.** In every step of every run, for any requests, layers and failures: every
dump task has been waited for exactly once when `wait_for_save` returns, with nothing left for the
next step, if and only if no wait fails but, at most, that for the last layer with a task. -/
theorem save_done_iff {cfg : WorkerConfig η} {c : LayerWiseConnector η}
    (hc : (layerWiseMachine cfg).Reachable c) (e : Step η) :
    SaveDone cfg (c.runStep cfg e) ↔ OnlyLastWaitFails cfg e := by
  have hidle : Idle (c.runStep cfg e) := (idle_of_reachable hc).runStep
  have hsaving : Saving cfg e.metadata e.outcomes cfg.kvCaches
      (cfg.kvCaches.foldl (runLayer cfg e.outcomes)
        (startLoadKv cfg e.outcomes.loads (c.bindConnectorMetadata e.metadata))) :=
    Saving.foldl cfg.kvCaches [] _ (List.nil_append _) (.startLoadKv (idle_of_reachable hc))
  have hsave : SaveInv c := fun _ =>
    ⟨(idle_of_reachable hc).dumpTasks, (idle_of_reachable hc).dumpTotalPtrs⟩
  have hdrained := hsaving.drained_iff
    (waitForSave_trace (hsave.startLoadKv.runLayers cfg.kvCaches))
  constructor
  · intro h
    exact hdrained.mp h.drained
  · intro h
    exact ⟨hdrained.mpr h, hidle.isSave, hidle.dumpTasks, hidle.dumpTotalPtrs, hidle.runStep_trace⟩

/-- The wait for the second of two layers fails, and there is no third. -/
theorem save_done_last_fails : SaveDone .small (start.runStep .small .lastFails) :=
  (save_done_iff (.init rfl) .lastFails).mpr fun _ => by decide

/-- The wait for the first layer fails: the dump of the second one is not waited for. -/
theorem dump_not_drained : ¬ SaveDone .small (start.runStep .small .small) := by
  intro h
  have honce := h.drained "model.layers.4.attn" [120, 121] [4, 4]
    [[12416, 16512], [12432, 16528]] 10 (by decide +kernel)
  exact absurd honce (by decide +kernel)

end UnifiedCache.Connector
