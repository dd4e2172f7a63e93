import UnifiedCache.Connector.Proofs.LayerWiseProofs
import UnifiedCache.Connector.Proofs.WorkerProofs

/-!
# Proofs: the connector call by call refines the worker of the engine

The engine has a worker that handles the requests of a layer at once: it filters them by the outcomes
of their calls. The connector goes through them one after the other. In every step both note the same
failed requests and the same invalid blocks, in the same order, and have tasks for the same requests
(`runStep_refines`), so what is proved of the worker of the engine holds of the connector. Among it is
which blocks a run reports.
-/

open Function Lib

namespace UnifiedCache.Connector

variable {η : Type}

/-- The outcomes with the layers counted from the first one. -/
def Outcomes.shift (o : Outcomes) (first : Nat) : Outcomes :=
  ⟨fun l => o.submit (first + l), fun l => o.wait (first + l)⟩

namespace LayerWiseConnector

variable {cfg : WorkerConfig η} {metadata metadata' : ConnectorMetadata η}
  {c c' : LayerWiseConnector η} {w w' : Worker η} {o : Outcomes} {first l row : Nat}

/-- The connector and the worker have noted the same, and have the same loads under way. -/
structure Refines (metadata : ConnectorMetadata η) (first : Nat) (c : LayerWiseConnector η)
    (w : Worker η) : Prop where
  failureReqIds : c.failureReqIds = w.failureReqIds
  invalidBlockIds : c.invalidBlockIds = w.invalidBlockIds
  loadTasks : ∀ l, (c.loadTasks (first + l)).map Prod.fst = (w.loadTasks l).map Prod.fst
  mem : ∀ l, ∀ x ∈ w.loadTasks l, x ∈ loads metadata

theorem Refines.congr (h : Refines metadata first c w) (hcf : c'.failureReqIds = c.failureReqIds)
    (hci : c'.invalidBlockIds = c.invalidBlockIds) (hct : c'.loadTasks = c.loadTasks)
    (hwf : w'.failureReqIds = w.failureReqIds) (hwi : w'.invalidBlockIds = w.invalidBlockIds)
    (hwt : w'.loadTasks = w.loadTasks) : Refines metadata first c' w' := by
  refine ⟨?_, ?_, ?_, ?_⟩
  · rw [hcf, hwf]
    exact h.failureReqIds
  · rw [hci, hwi]
    exact h.invalidBlockIds
  · rw [hct, hwt]
    exact h.loadTasks
  · rw [hwt]
    exact h.mem

/-! ## Submitting -/

/-- What the loop of `_submit_request_load_tasks_for_layer` adds for some of the requests. -/
structure Submits (o : Outcomes) (l : Nat) (xs : ConnectorMetadata η) (c c' : LayerWiseConnector η) :
    Prop where
  failureReqIds : c'.failureReqIds = c.failureReqIds ++
    ((xs.filter fun x => x.1 ∉ c.failureReqIds).filter fun x => !o.submit l x.1).map Prod.fst
  invalidBlockIds : c'.invalidBlockIds = c.invalidBlockIds ++
    failedBlocks ((xs.filter fun x => x.1 ∉ c.failureReqIds).filter fun x => !o.submit l x.1)
  loadTasks : (c'.loadTasks l).map Prod.fst = (c.loadTasks l).map Prod.fst ++
    ((xs.filter fun x => x.1 ∉ c.failureReqIds).filter fun x => o.submit l x.1).map Prod.fst
  others : ∀ l', l' ≠ l → c'.loadTasks l' = c.loadTasks l'

namespace Submits

variable {x : ReqId × RequestDispatchMeta η} {xs : ConnectorMetadata η} {c₁ : LayerWiseConnector η}

theorem skip (h : Submits o l xs c c') (hfailed : x.1 ∈ c.failureReqIds) :
    Submits o l (x :: xs) c c' := by
  have hfilter : (x :: xs).filter (fun y => y.1 ∉ c.failureReqIds) =
      xs.filter fun y => y.1 ∉ c.failureReqIds := by
    rw [List.filter_cons_of_neg]
    simpa using hfailed
  refine ⟨?_, ?_, ?_, h.others⟩ <;> rw [hfilter]
  · exact h.failureReqIds
  · exact h.invalidBlockIds
  · exact h.loadTasks

theorem filter_cons (hnot : x.1 ∉ c.failureReqIds) :
    (x :: xs).filter (fun y => y.1 ∉ c.failureReqIds) =
      x :: xs.filter fun y => y.1 ∉ c.failureReqIds := by
  rw [List.filter_cons_of_pos]
  simpa using hnot

theorem task (h : Submits o l xs c₁ c') (hnot : x.1 ∉ c.failureReqIds) (hok : o.submit l x.1 = true)
    (hfailed : c₁.failureReqIds = c.failureReqIds)
    (hinvalid : c₁.invalidBlockIds = c.invalidBlockIds)
    (htasks : (c₁.loadTasks l).map Prod.fst = (c.loadTasks l).map Prod.fst ++ [x.1])
    (hothers : ∀ l', l' ≠ l → c₁.loadTasks l' = c.loadTasks l') : Submits o l (x :: xs) c c' := by
  obtain ⟨hf, hi, ht, ho⟩ := h
  rw [hfailed] at hf hi ht
  refine ⟨?_, ?_, ?_, fun l' hl' => (ho l' hl').trans (hothers l' hl')⟩ <;> rw [filter_cons hnot]
  · rw [List.filter_cons_of_neg (by simp [hok])]
    exact hf
  · rw [List.filter_cons_of_neg (by simp [hok]), hi, hinvalid]
  · rw [List.filter_cons_of_pos (by simp [hok]), List.map_cons, ht, htasks, List.append_assoc,
      List.singleton_append]

theorem failed (h : Submits o l xs c₁ c') (hnot : x.1 ∉ c.failureReqIds)
    (hok : o.submit l x.1 = false) (hne : ∀ y ∈ xs, y.1 ≠ x.1)
    (hfailed : c₁.failureReqIds = c.failureReqIds ++ [x.1])
    (hinvalid : c₁.invalidBlockIds = c.invalidBlockIds ++ x.2.loadBlockIds.2)
    (htasks : c₁.loadTasks = c.loadTasks) : Submits o l (x :: xs) c c' := by
  have hrest : xs.filter (fun y => y.1 ∉ c₁.failureReqIds) =
      xs.filter fun y => y.1 ∉ c.failureReqIds := by
    refine List.filter_congr fun y hy => ?_
    rw [hfailed]
    simp [hne y hy]
  obtain ⟨hf, hi, ht, ho⟩ := h
  rw [hrest] at hf hi ht
  rw [htasks] at ht ho
  refine ⟨?_, ?_, ?_, ho⟩ <;> rw [filter_cons hnot]
  · rw [List.filter_cons_of_pos (by simp [hok]), List.map_cons, hf, hfailed, List.append_assoc,
      List.singleton_append]
  · rw [List.filter_cons_of_pos (by simp [hok]), hi, hinvalid, List.append_assoc]
    rfl
  · rw [List.filter_cons_of_neg (by simp [hok])]
    exact ht

end Submits

theorem fail_invalidBlockIds (hmd : SameLoads metadata metadata')
    (hnodup : (metadata.map Prod.fst).Nodup) {x : ReqId × RequestDispatchMeta η} (hx : x ∈ metadata) :
    (c.fail metadata' x.1).invalidBlockIds = c.invalidBlockIds ++ x.2.loadBlockIds.2 := by
  unfold fail
  rw [hmd.find? hnodup hx]

theorem putLoadTask_keys {req : ReqId} (t : Task) (h : req ∉ (c.loadTasks l).map Prod.fst) :
    ((c.putLoadTask l req t).loadTasks l).map Prod.fst = (c.loadTasks l).map Prod.fst ++ [req] := by
  rw [putLoadTask_loadTasks_self, dictSet_of_notMem t h, List.map_append]
  rfl

theorem foldl_submitRequest (hmd : SameLoads metadata metadata')
    (hnodup : (metadata.map Prod.fst).Nodup)
    (data : ReqId × RequestDispatchMeta η → List η × List (List (List UInt64)))
    (xs : ConnectorMetadata η) (c : LayerWiseConnector η) (hxs : (xs.map Prod.fst).Nodup)
    (hmem : ∀ x ∈ xs, x ∈ metadata) (hnew : ∀ x ∈ xs, x.1 ∉ (c.loadTasks l).map Prod.fst) :
    Submits o l xs c
      ((xs.map fun x => (x.1, data x)).foldl (submitRequest o metadata' l row) c) := by
  induction xs generalizing c with
  | nil => exact ⟨by simp, by simp [failedBlocks], by simp, fun _ _ => rfl⟩
  | cons x xs ih =>
    rw [List.map_cons, List.nodup_cons] at hxs
    have hne : ∀ y ∈ xs, y.1 ≠ x.1 := fun y hy heq => hxs.1 (heq ▸ List.mem_map_of_mem hy)
    have hmem' : ∀ y ∈ xs, y ∈ metadata := fun y hy => hmem y (List.mem_cons_of_mem _ hy)
    have hnew' : ∀ y ∈ xs, y.1 ∉ (c.loadTasks l).map Prod.fst :=
      fun y hy => hnew y (List.mem_cons_of_mem _ hy)
    rw [List.map_cons, List.foldl_cons]
    by_cases hfailed : x.1 ∈ c.failureReqIds
    · have hskip : submitRequest o metadata' l row c (x.1, data x) = c := if_pos hfailed
      rw [hskip]
      exact (ih c hxs.2 hmem' hnew').skip hfailed
    · by_cases hok : o.submit l x.1 = true
      · have hput : submitRequest o metadata' l row c (x.1, data x) = _ :=
          (if_neg hfailed).trans (if_pos hok)
        rw [hput]
        have hkeys := putLoadTask_keys (c := c) c.trace.length (hnew x List.mem_cons_self)
        refine (ih _ hxs.2 hmem' ?_).task hfailed hok rfl rfl hkeys
          fun l' hl' => putLoadTask_loadTasks_of_ne _ hl' _ _
        intro y hy hy'
        rcases List.mem_append.mp (hkeys ▸ hy') with hy' | hy'
        · exact hnew' y hy hy'
        · exact hne y hy (List.mem_singleton.mp hy')
      · obtain ⟨c₁, hput, hfail, hinvalid, htasks⟩ : ∃ c₁,
            submitRequest o metadata' l row c (x.1, data x) = c₁ ∧
            c₁.failureReqIds = c.failureReqIds ++ [x.1] ∧
            c₁.invalidBlockIds = c.invalidBlockIds ++ x.2.loadBlockIds.2 ∧
            c₁.loadTasks = c.loadTasks :=
          ⟨_, (if_neg hfailed).trans (if_neg hok), rfl,
            fail_invalidBlockIds hmd hnodup (hmem x List.mem_cons_self), rfl⟩
        rw [hput]
        exact (ih c₁ hxs.2 hmem' (htasks ▸ hnew')).failed hfailed (Bool.eq_false_iff.mpr hok) hne
          hfail hinvalid htasks

theorem Refines.submit (h : Refines metadata first c w) (o : Outcomes) (l row : Nat)
    (hmd : SameLoads metadata metadata')
    (hnodup : (metadata.map Prod.fst).Nodup) (hdata : c.requestData = cfg.requestData metadata)
    (hnone : c.loadTasks (first + l) = []) :
    Refines metadata first (submitRequestLoadTasksForLayer o (first + l) row metadata' c)
      (LayerWise.submitRequestLoadTasksForLayer metadata (o.shift first) l w) := by
  have hsubmits : Submits o (first + l) (loads metadata) c
      (submitRequestLoadTasksForLayer o (first + l) row metadata' c) := by
    rw [submitRequestLoadTasksForLayer, hdata]
    refine foldl_submitRequest hmd hnodup _ _ _ (loads_nodup hnodup) (fun x => mem_of_loads) ?_
    rw [hnone]
    simp
  obtain ⟨hf, hi, ht, ho⟩ := hsubmits
  rw [h.failureReqIds] at hf hi ht
  rw [h.invalidBlockIds] at hi
  rw [hnone, List.map_nil, List.nil_append] at ht
  refine ⟨hf, hi, ?_, ?_⟩
  · intro l'
    by_cases hl' : l' = l
    · rw [hl']
      refine ht.trans ?_
      simp only [LayerWise.submitRequestLoadTasksForLayer, update_self]
      rfl
    · rw [ho (first + l') (by omega), h.loadTasks l']
      simp only [LayerWise.submitRequestLoadTasksForLayer, update_of_ne hl']
  · intro l' x hx
    by_cases hl' : l' = l
    · subst hl'
      simp only [LayerWise.submitRequestLoadTasksForLayer, update_self] at hx
      exact List.mem_of_mem_filter (List.mem_of_mem_filter hx)
    · simp only [LayerWise.submitRequestLoadTasksForLayer, update_of_ne hl'] at hx
      exact h.mem l' x hx

/-! ## Waiting -/

theorem foldl_waitRequest (hmd : SameLoads metadata metadata')
    (hnodup : (metadata.map Prod.fst).Nodup) (ws : ConnectorMetadata η) (ys : List (ReqId × Task))
    (c : LayerWiseConnector η) (hys : ys.map Prod.fst = ws.map Prod.fst)
    (hmem : ∀ x ∈ ws, x ∈ metadata) :
    (ys.foldl (waitRequest o metadata' l) c).failureReqIds =
      c.failureReqIds ++ (ws.filter fun x => !o.wait l x.1).map Prod.fst ∧
    (ys.foldl (waitRequest o metadata' l) c).invalidBlockIds =
      c.invalidBlockIds ++ failedBlocks (ws.filter fun x => !o.wait l x.1) ∧
    (ys.foldl (waitRequest o metadata' l) c).loadTasks = c.loadTasks := by
  induction ws generalizing ys c with
  | nil =>
    rw [List.map_nil, List.map_eq_nil_iff] at hys
    subst hys
    simp [failedBlocks]
  | cons x ws ih =>
    cases ys with
    | nil => simp at hys
    | cons y ys =>
      rw [List.map_cons, List.map_cons, List.cons.injEq] at hys
      obtain ⟨hyx, hys⟩ := hys
      have hmem' : ∀ x ∈ ws, x ∈ metadata := fun y hy => hmem y (List.mem_cons_of_mem _ hy)
      rw [List.foldl_cons]
      by_cases hok : o.wait l x.1 = true
      · have hwait : waitRequest o metadata' l c y = _ := if_pos (hyx ▸ hok)
        rw [hwait, List.filter_cons_of_neg (by simp [hok])]
        exact ih ys _ hys hmem'
      · have hwait : waitRequest o metadata' l c y = _ := if_neg (hyx ▸ hok)
        have hblocks := fail_invalidBlockIds (c := c.record (.waitLoad y.1 y.2 false)) hmd hnodup
          (hmem x List.mem_cons_self)
        obtain ⟨hf, hi, ht⟩ := ih ys ((c.record (.waitLoad y.1 y.2 false)).fail metadata' y.1) hys
          hmem'
        rw [← hyx] at hblocks
        rw [hwait, List.filter_cons_of_pos (by simp [hok])]
        refine ⟨?_, ?_, ht⟩
        · rw [hf, List.map_cons, ← hyx]
          exact List.append_assoc _ _ _
        · rw [hi, hblocks]
          exact List.append_assoc _ _ _

theorem Refines.wait (h : Refines metadata first c w) (hmd : SameLoads metadata metadata')
    (hnodup : (metadata.map Prod.fst).Nodup) {gpu : Gpu η} :
    Refines metadata first ((c.loadTasks (first + l)).foldl (waitRequest o metadata' (first + l)) c)
      { w.fail ((w.loadTasks l).filter fun x => !(o.shift first).wait l x.1) with gpu := gpu } := by
  obtain ⟨hf, hi, ht⟩ := foldl_waitRequest (o := o) hmd hnodup (w.loadTasks l)
    (c.loadTasks (first + l)) c (h.loadTasks l) fun x hx => mem_of_loads (h.mem l x hx)
  refine ⟨?_, ?_, ?_, h.mem⟩
  · rw [hf, h.failureReqIds]
    rfl
  · rw [hi, h.invalidBlockIds]
    rfl
  · rw [ht]
    exact h.loadTasks

/-! ## Layers -/

theorem Refines.waitForLayerLoad {k : Nat} {kv : KvLayer} (hr : Refines metadata first c w)
    (h : AtLayer cfg metadata first k c)
    (hids : cfg.kvCaches.map KvLayer.layerId = List.range' first cfg.kvCaches.length)
    (hnodup : (metadata.map Prod.fst).Nodup) (hkv : kv.layerId = first + k) :
    Refines metadata first (LayerWiseConnector.waitForLayerLoad cfg o c kv)
      (LayerWise.waitForLayerLoad cfg.kvCaches.length metadata (o.shift first) k w) := by
  obtain ⟨m, hm, hsame⟩ := h.sameLoads
  have hext : Extends c ((c.loadTasks (first + k)).foldl (waitRequest o m (first + k)) c) :=
    .foldl (waitRequest_extends o m _) _ _
  have htasks : ((c.loadTasks (first + k)).foldl (waitRequest o m (first + k)) c).loadTasks =
      c.loadTasks :=
    (foldl_waitRequest hsame hnodup (w.loadTasks k) _ c (hr.loadTasks k)
      fun x hx => mem_of_loads (hr.mem k x hx)).2.2
  rw [h.waitForLayerLoad_eq hids hm hkv]
  unfold LayerWise.waitForLayerLoad
  dsimp only
  split
  · have hlater : c.loadTasks (first + (k + 1)) = [] :=
      h.submitting.later _ (Nat.lt_succ_self (first + k))
    rw [← htasks] at hlater
    exact (hr.wait hsame hnodup).submit o (k + 1) _ hsame hnodup
      (hext.requestData.trans h.requestData) hlater
  · exact hr.wait hsame hnodup

theorem Refines.runLayer [DecidableEq η] {k : Nat} {kv : KvLayer} {o : StoreOutcomes}
    (hr : Refines metadata first c w) (h : AtLayer cfg metadata first k c)
    (hids : cfg.kvCaches.map KvLayer.layerId = List.range' first cfg.kvCaches.length)
    (hnodup : (metadata.map Prod.fst).Nodup) (hkv : kv.layerId = first + k) (hash : Config η)
    (batch : List Sequence) :
    Refines metadata first (LayerWiseConnector.runLayer cfg o c kv)
      (LayerWise.runLayer hash cfg.kvCaches.length metadata batch (o.loads.shift first) w k) := by
  have hwait := hr.waitForLayerLoad (o := o.loads) h hids hnodup hkv
  obtain ⟨htasks, -, -, hfail, hinv⟩ := saveKvLayer_loads cfg o
    ((LayerWiseConnector.waitForLayerLoad cfg o.loads c kv).record (.forward kv.layerId)) kv
  refine hwait.congr hfail hinv htasks ?_ ?_ ?_
  · exact Worker.dumpData_failureReqIds
  · exact Worker.dumpData_invalidBlockIds
  · exact Worker.dumpData_loadTasks

theorem Refines.foldl [DecidableEq η] (o : StoreOutcomes)
    (hids : cfg.kvCaches.map KvLayer.layerId = List.range' first cfg.kvCaches.length)
    (hnodup : (metadata.map Prod.fst).Nodup) (hash : Config η) (batch : List Sequence)
    (kvs ran : List KvLayer) (c : LayerWiseConnector η) (w : Worker η)
    (hran : ran ++ kvs = cfg.kvCaches) (h : AtLayer cfg metadata first ran.length c)
    (hr : Refines metadata first c w) :
    Refines metadata first (kvs.foldl (LayerWiseConnector.runLayer cfg o) c)
      ((List.range' ran.length kvs.length).foldl (LayerWise.runLayer hash cfg.kvCaches.length metadata
        batch (o.loads.shift first)) w) := by
  induction kvs generalizing ran c w with
  | nil => exact hr
  | cons kv kvs ih =>
    have hlt : ran.length < cfg.kvCaches.length := by
      rw [← hran, List.length_append, List.length_cons]
      omega
    have hkv := WorkerConfig.Consecutive.layerId_of_append hids hran
    have hrest := ih (ran ++ [kv]) _ _ (by rw [List.append_assoc]; exact hran)
      (by rw [List.length_append]; exact h.runLayer (o := o) hids hnodup hlt hkv)
      (hr.runLayer h hids hnodup hkv hash batch)
    rw [List.length_append] at hrest
    exact hrest

theorem Refines.startLoadKv
    (hids : cfg.kvCaches.map KvLayer.layerId = List.range' first cfg.kvCaches.length)
    (hnodup : (metadata.map Prod.fst).Nodup) (hinvalid : c.invalidBlockIds = w.invalidBlockIds) :
    Refines metadata first (LayerWiseConnector.startLoadKv cfg o (c.bindConnectorMetadata metadata))
      (LayerWise.startLoadKv metadata (o.shift first) w) := by
  have hbegin : Refines metadata first
      (beginLoads cfg (metadata.map fun x => (x.1, cfg.rewriteLoads x.2))
        (c.bindConnectorMetadata metadata))
      { w with loadTasks := fun _ => [], failureReqIds := [] } :=
    ⟨rfl, hinvalid, fun _ => rfl, by simp⟩
  have hdata := cfg.requestData_rewriteLoads metadata
  have hsubmit := hbegin.submit o 0 0 (SameLoads.map rfl cfg.rewriteLoads_blocks) hnodup hdata rfl
  unfold LayerWiseConnector.startLoadKv LayerWise.startLoadKv
  dsimp only [bindConnectorMetadata]
  rw [WorkerConfig.Consecutive.firstLayerId_eq hids]
  split
  · exact hsubmit
  · next hneed =>
    have hnil : (beginLoads cfg (metadata.map fun x => (x.1, cfg.rewriteLoads x.2))
        (c.bindConnectorMetadata metadata)).requestData = [] := by
      simpa [beginLoads] using hneed
    rw [submitRequestLoadTasksForLayer, hnil] at hsubmit
    exact hsubmit

/-- **The connector refines the worker.** After a step the connector has noted the failed requests
and the invalid blocks that the worker of the engine has, and both have had tasks for the same
requests. -/
theorem runStep_refines [DecidableEq η] (hc : (layerWiseMachine cfg).Reachable c)
    (hids : cfg.kvCaches.map KvLayer.layerId = List.range' first cfg.kvCaches.length)
    (e : Step η) (hash : Config η) (batch : List Sequence)
    (hinvalid : c.invalidBlockIds = w.invalidBlockIds) :
    Refines e.metadata first (runStep cfg e c)
      (LayerWise.run hash cfg.kvCaches.length e.metadata batch (e.outcomes.loads.shift first) w) := by
  have hstart := AtLayer.startLoadKv (o := e.outcomes.loads) hids e.nodup
    (idle_of_reachable hc).dumpTasks
  have hrun := Refines.foldl e.outcomes hids e.nodup hash batch cfg.kvCaches [] _ _ (List.nil_append _)
    hstart (Refines.startLoadKv hids e.nodup hinvalid)
  rw [List.length_nil, ← List.range_eq_range'] at hrun
  unfold runStep waitForSave
  dsimp only
  split
  · obtain ⟨acts, heq, -⟩ := waitDumps_eq e.outcomes cfg.kvCaches (cfg.kvCaches.foldl
      (LayerWiseConnector.runLayer cfg e.outcomes)
      (LayerWiseConnector.startLoadKv cfg e.outcomes.loads (c.bindConnectorMetadata e.metadata)))
    rw [heq]
    exact hrun.congr rfl rfl rfl rfl rfl rfl
  · exact hrun

end LayerWiseConnector

/-! ## What is reported -/

namespace LayerWise

variable {metadata : ConnectorMetadata η} {o : Outcomes} {w : Worker η} {layers n : Nat}
  {before : List VllmBlock}

/-- The invalid blocks are the earlier ones and those of the requests noted, which are the requests that
fail in the layers so far. -/
structure Noting (metadata : ConnectorMetadata η) (o : Outcomes) (layers : Nat)
    (before : List VllmBlock) (w : Worker η) (n : Nat) : Prop where
  noted : ∀ v, v ∈ w.invalidBlockIds ↔
    v ∈ before ∨ ∃ x ∈ loads metadata, x.1 ∈ w.failureReqIds ∧ v ∈ x.2.loadBlockIds.2
  failed : ∀ id ∈ w.failureReqIds, Fails .layerWise layers o id
  all : ∀ x ∈ loads metadata, ∀ l < n, (o.submit l x.1 && o.wait l x.1) = false →
    x.1 ∈ w.failureReqIds

theorem Noting.fail (h : Noting metadata o layers before w n) {failed : ConnectorMetadata η}
    (ok : ReqId → Bool)
    (hfailed : ∀ x, x ∈ failed ↔ x ∈ loads metadata ∧ x.1 ∉ w.failureReqIds ∧ ok x.1 = false)
    (hok : ∀ id, ok id = false → Fails .layerWise layers o id) (w' : Worker η)
    (hf : w'.failureReqIds = (w.fail failed).failureReqIds)
    (hi : w'.invalidBlockIds = (w.fail failed).invalidBlockIds) :
    Noting metadata o layers before w' n ∧
      ∀ x ∈ loads metadata, ok x.1 = false → x.1 ∈ w'.failureReqIds := by
  have hmem := Worker.mem_fail ok hfailed
  refine ⟨⟨fun v => ?_, fun id hid => ?_, fun x hx l hl hfalse => ?_⟩, fun x hx hfalse => ?_⟩
  · have hblocks : v ∈ failedBlocks failed ↔ ∃ x ∈ loads metadata, x.1 ∉ w.failureReqIds ∧
        ok x.1 = false ∧ v ∈ x.2.loadBlockIds.2 := by
      unfold failedBlocks
      simp only [List.mem_flatMap, hfailed, and_assoc]
    have hunion : v ∈ w'.invalidBlockIds ↔ v ∈ w.invalidBlockIds ∨ v ∈ failedBlocks failed := by
      rw [hi]
      exact List.mem_append
    rw [hunion, h.noted, hblocks, hf]
    simp only [hmem]
    constructor
    · rintro ((hv | ⟨x, hx, hid, hv⟩) | ⟨x, hx, -, hfalse, hv⟩)
      · exact .inl hv
      · exact .inr ⟨x, hx, .inl hid, hv⟩
      · exact .inr ⟨x, hx, .inr ⟨hfalse, x, hx, rfl⟩, hv⟩
    · rintro (hv | ⟨x, hx, hid, hv⟩)
      · exact .inl (.inl hv)
      · by_cases hold : x.1 ∈ w.failureReqIds
        · exact .inl (.inr ⟨x, hx, hold, hv⟩)
        · exact .inr ⟨x, hx, hold, (hid.resolve_left hold).1, hv⟩
  · rw [hf, hmem] at hid
    exact hid.elim (h.failed id) fun hfalse => hok id hfalse.1
  · rw [hf, hmem]
    exact .inl (h.all x hx l hl hfalse)
  · rw [hf, hmem]
    exact .inr ⟨hfalse, x, hx, rfl⟩

theorem Noting.submit (h : Noting metadata o layers before w n) (hn : n < layers) :
    Noting metadata o layers before (submitRequestLoadTasksForLayer metadata o n w) n ∧
      Submitted metadata o (submitRequestLoadTasksForLayer metadata o n w) n := by
  have hfailed : ∀ x, x ∈ ((loads metadata).filter fun x => x.1 ∉ w.failureReqIds).filter
      (fun x => !o.submit n x.1) ↔
      x ∈ loads metadata ∧ x.1 ∉ w.failureReqIds ∧ o.submit n x.1 = false := by
    intro x
    simp only [List.mem_filter, decide_eq_true_eq, Bool.not_eq_true', and_assoc]
  obtain ⟨hnoting, hall⟩ := h.fail (o.submit n) hfailed
    (fun id hfalse => ⟨n, hn, by rw [hfalse, Bool.false_and]⟩)
    (submitRequestLoadTasksForLayer metadata o n w) rfl rfl
  refine ⟨hnoting, fun x => ?_, hall⟩
  have hmem := Worker.mem_fail (o.submit n) hfailed x.1
  show x ∈ update w.loadTasks n _ n ↔ x ∈ loads metadata ∧ x.1 ∉ (w.fail _).failureReqIds
  rw [update_self, hmem]
  simp only [List.mem_filter, decide_eq_true_eq, not_or, not_and, not_exists, and_assoc]
  constructor
  · rintro ⟨hx, hnot, hsubmit⟩
    exact ⟨hx, hnot, fun hfalse => absurd (hsubmit.symm.trans hfalse) (by simp)⟩
  · rintro ⟨hx, hnot, hall⟩
    refine ⟨hx, hnot, ?_⟩
    by_contra hfalse
    exact hall (Bool.eq_false_iff.mpr hfalse) x hx rfl

theorem Noting.runLayer [DecidableEq η] (h : Noting metadata o layers before w n)
    (hsubmitted : Submitted metadata o w n) (hn : n < layers) (hash : Config η) (batch : List Sequence) :
    Noting metadata o layers before (LayerWise.runLayer hash layers metadata batch o w n) (n + 1) ∧
      (n + 1 < layers →
        Submitted metadata o (LayerWise.runLayer hash layers metadata batch o w n) (n + 1)) := by
  have hfailed : ∀ x, x ∈ (w.loadTasks n).filter (fun x => !o.wait n x.1) ↔
      x ∈ loads metadata ∧ x.1 ∉ w.failureReqIds ∧ o.wait n x.1 = false := by
    intro x
    simp only [List.mem_filter, hsubmitted.tasks, Bool.not_eq_true', and_assoc]
  have hkeep : ∀ x : ReqId × RequestDispatchMeta η, x.1 ∈ w.failureReqIds →
      x.1 ∈ (w.fail ((w.loadTasks n).filter fun x => !o.wait n x.1)).failureReqIds :=
    fun x hx => List.mem_append_left _ hx
  -- What the waits leave, before the loads of the next layer are submitted.
  have hwaited : ∀ gpu, Noting metadata o layers before
      { w.fail ((w.loadTasks n).filter fun x => !o.wait n x.1) with gpu := gpu } (n + 1) := by
    intro gpu
    obtain ⟨hnoting, hall⟩ := h.fail (o.wait n) hfailed
      (fun id hfalse => ⟨n, hn, by rw [hfalse, Bool.and_false]⟩)
      { w.fail ((w.loadTasks n).filter fun x => !o.wait n x.1) with gpu := gpu } rfl rfl
    refine ⟨hnoting.noted, hnoting.failed, fun x hx l hl hfalse => ?_⟩
    by_cases heq : l = n
    · subst heq
      rcases Bool.and_eq_false_iff.mp hfalse with hfalse | hfalse
      · exact hkeep x (hsubmitted.failed x hx hfalse)
      · exact hall x hx hfalse
    · exact hnoting.all x hx l (by omega) hfalse
  -- The forward pass and the dumps note nothing.
  have hrest : ∀ w', Noting metadata o layers before w' (n + 1) → Noting metadata o layers before
      ((w'.forwardLayer hash batch n).dumpData metadata n) (n + 1) := by
    intro w' h'
    refine ⟨?_, ?_, ?_⟩
    · rw [Worker.dumpData_invalidBlockIds, Worker.dumpData_failureReqIds]
      exact h'.noted
    · rw [Worker.dumpData_failureReqIds]
      exact h'.failed
    · rw [Worker.dumpData_failureReqIds]
      exact h'.all
  unfold LayerWise.runLayer saveKvLayer waitForLayerLoad
  dsimp only
  split_ifs with hlt
  · obtain ⟨hnoting, htasks, hfails⟩ := (hwaited _).submit hlt
    refine ⟨hrest _ hnoting, fun _ => ⟨?_, ?_⟩⟩
    · rw [Worker.dumpData_loadTasks, Worker.dumpData_failureReqIds]
      exact htasks
    · rw [Worker.dumpData_failureReqIds]
      exact hfails
  · exact ⟨hrest _ (hwaited _), fun hlt' => absurd hlt' hlt⟩

/-- **A step of the worker** adds the blocks of the requests that fail. -/
theorem run_invalid [DecidableEq η] (hash : Config η) (batch : List Sequence) (hlayers : 0 < layers)
    (w : Worker η) (v : VllmBlock) :
    v ∈ (LayerWise.run hash layers metadata batch o w).invalidBlockIds ↔ v ∈ w.invalidBlockIds ∨
      ∃ x ∈ loads metadata, Fails .layerWise layers o x.1 ∧ v ∈ x.2.loadBlockIds.2 := by
  have hstart : Noting metadata o layers w.invalidBlockIds
      { w with loadTasks := fun _ => [], failureReqIds := [] } 0 :=
    ⟨fun v => by simp, by simp, by simp⟩
  have hrun : ∀ n ≤ layers, Noting metadata o layers w.invalidBlockIds ((List.range n).foldl
      (LayerWise.runLayer hash layers metadata batch o) (startLoadKv metadata o w)) n ∧
      (n < layers → Submitted metadata o ((List.range n).foldl
        (LayerWise.runLayer hash layers metadata batch o) (startLoadKv metadata o w)) n) := by
    intro n
    induction n with
    | zero =>
      intro _
      obtain ⟨hnoting, hsubmitted⟩ := hstart.submit hlayers
      exact ⟨hnoting, fun _ => hsubmitted⟩
    | succ n ih =>
      intro hn
      obtain ⟨hnoting, hsubmitted⟩ := ih (Nat.le_of_succ_le hn)
      rw [List.range_succ, List.foldl_append, List.foldl_cons, List.foldl_nil]
      exact hnoting.runLayer (hsubmitted hn) hn hash batch
  obtain ⟨hnoting, -⟩ := hrun layers (Nat.le_refl layers)
  refine (hnoting.noted v).trans (or_congr_right ?_)
  constructor
  · rintro ⟨x, hx, hid, hv⟩
    exact ⟨x, hx, hnoting.failed x.1 hid, hv⟩
  · rintro ⟨x, hx, ⟨l, hl, hfalse⟩, hv⟩
    exact ⟨x, hx, hnoting.all x hx l hl hfalse, hv⟩

end LayerWise

namespace LayerWiseConnector

variable {cfg : WorkerConfig η} {c c' : LayerWiseConnector η}

/-- A block of a request of the step of which a submission or a wait raises a `RuntimeError`. -/
def Step.FailsAt (cfg : WorkerConfig η) (e : Step η) (v : VllmBlock) : Prop :=
  ∃ x ∈ loads e.metadata, v ∈ x.2.loadBlockIds.2 ∧ ∃ l ∈ cfg.layerIds,
    e.outcomes.loads.submit l x.1 = false ∨ e.outcomes.loads.wait l x.1 = false

/-- The steps since `get_block_ids_with_load_errors` has last been called. -/
def unfetched (steps : List (Step η)) : List (WorkerEvent η) → List (Step η)
  | [] => steps
  | .step e :: events => unfetched (steps ++ [e]) events
  | .getBlockIdsWithLoadErrors :: events => unfetched [] events
  | .clearConnectorMetadata :: events => unfetched steps events

theorem runStep_invalid [Inhabited η] (hids : cfg.Consecutive) (hc : (layerWiseMachine cfg).Reachable c)
    (e : Step η) (v : VllmBlock) :
    v ∈ (runStep cfg e c).invalidBlockIds ↔ v ∈ c.invalidBlockIds ∨ e.FailsAt cfg v := by
  classical
  obtain ⟨first, hids⟩ := hids
  have hpos : 0 < cfg.kvCaches.length := List.length_pos_of_ne_nil cfg.kvCaches_ne
  let hash : Config η := ⟨1, 1, 0, fun h _ => h, default, Nat.one_pos, Nat.one_pos⟩
  have hrefines := runStep_refines (w := ⟨fun _ _ _ => .garbage, [], c.invalidBlockIds, [], fun _ => [], []⟩)
    hc hids e hash [] rfl
  have hfails : ∀ id, Fails .layerWise cfg.kvCaches.length (e.outcomes.loads.shift first) id ↔
      ∃ l ∈ cfg.layerIds, e.outcomes.loads.submit l id = false ∨ e.outcomes.loads.wait l id = false := by
    intro id
    rw [WorkerConfig.Consecutive.layerIds_eq hids]
    constructor
    · rintro ⟨l, hl, hfalse⟩
      exact ⟨first + l, List.mem_range'_1.mpr ⟨Nat.le_add_right _ _, Nat.add_lt_add_left hl _⟩,
        Bool.and_eq_false_iff.mp hfalse⟩
    · rintro ⟨l, hl, hfalse⟩
      obtain ⟨hle, hlt⟩ := List.mem_range'_1.mp hl
      obtain ⟨k, rfl⟩ := Nat.exists_eq_add_of_le hle
      exact ⟨k, Nat.lt_of_add_lt_add_left hlt, Bool.and_eq_false_iff.mpr hfalse⟩
  rw [hrefines.invalidBlockIds, LayerWise.run_invalid hash [] hpos]
  refine or_congr_right (exists_congr fun x => and_congr_right fun _ => ?_)
  rw [hfails, and_comm]

theorem run_invalid [Inhabited η] (hids : cfg.Consecutive) {events : List (WorkerEvent η)}
    {steps : List (Step η)} (hc : (layerWiseMachine cfg).Reachable c)
    (hinvalid : ∀ v, v ∈ c.invalidBlockIds ↔ ∃ e ∈ steps, e.FailsAt cfg v)
    (hrun : (layerWiseMachine cfg).run c events = some c') (v : VllmBlock) :
    v ∈ c'.invalidBlockIds ↔ ∃ e ∈ unfetched steps events, e.FailsAt cfg v := by
  induction events generalizing c steps with
  | nil =>
    cases hrun
    exact hinvalid v
  | cons event events ih =>
    rw [Machine.run_cons, Option.bind_eq_some_iff] at hrun
    obtain ⟨c₁, hstep, hrest⟩ := hrun
    have hc₁ : (layerWiseMachine cfg).Reachable c₁ := .step hc trivial hstep
    cases event with
    | step e =>
      obtain rfl := Option.some.inj hstep
      refine ih hc₁ (fun v => ?_) hrest
      rw [runStep_invalid hids hc, hinvalid]
      simp only [List.mem_append, List.mem_singleton, or_and_right, exists_or, exists_eq_left]
    | getBlockIdsWithLoadErrors =>
      obtain rfl := Option.some.inj hstep
      exact ih hc₁ (fun v => by simp [getBlockIdsWithLoadErrors]) hrest
    | clearConnectorMetadata =>
      obtain rfl := Option.some.inj hstep
      exact ih hc₁ hinvalid hrest

/-- **The report is exact.** After any run `get_block_ids_with_load_errors` returns the blocks of exactly
those requests, in the steps since it has last been called, of which in some layer the submission of the
load or the wait for it raises a `RuntimeError`. -/
theorem reported_iff_fails [Inhabited η] (hids : cfg.Consecutive) {events : List (WorkerEvent η)}
    (hrun : (layerWiseMachine cfg).run .start events = some c) (v : VllmBlock) :
    v ∈ c.getBlockIdsWithLoadErrors.1 ↔ ∃ e ∈ unfetched [] events, e.FailsAt cfg v :=
  run_invalid hids (.init rfl) (fun v => by simp [start]) hrun v

/-- Two steps in which a load fails; the errors of the first one are fetched before the second. -/
theorem reported_iff_fails_small :
    7 ∈ (runStep .small .lastFails
        (runStep .small .small start).getBlockIdsWithLoadErrors.2).getBlockIdsWithLoadErrors.1 ↔
      ∃ e ∈ [Step.lastFails], e.FailsAt .small 7 := by
  have hrun : (layerWiseMachine .small).run start
      [.step .small, .getBlockIdsWithLoadErrors, .step .lastFails] = some _ := rfl
  exact reported_iff_fails ⟨3, rfl⟩ hrun 7

end LayerWiseConnector

end UnifiedCache.Connector
